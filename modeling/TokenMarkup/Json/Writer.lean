import TokenMarkup.Json

/-!
# Writing JSON

Values are written without blanks, members in the order in which they are held. Only quotes,
backslashes and the control characters of ASCII are escaped.
-/

namespace TokenMarkup.Json

/-- The escape of a control character by its number. -/
def escapeByNumber (c : Char) : Text :=
  ['\\', 'u', '0', '0', Nat.digitChar (c.toNat / 16), Nat.digitChar (c.toNat % 16)]

/-- A character inside a string. -/
def writeChar (c : Char) : Text :=
  match c with
  | '"' => ['\\', '"']
  | '\\' => ['\\', '\\']
  | '\x08' => ['\\', 'b']
  | '\x0c' => ['\\', 'f']
  | '\n' => ['\\', 'n']
  | '\r' => ['\\', 'r']
  | '\t' => ['\\', 't']
  | c => if c.toNat < 0x20 then escapeByNumber c else [c]

/-- A string between its quotes. One that spells nothing is written as half a surrogate pair. -/
def writeString : Literal → Text
  | some value => ['"'] ++ value.toList.flatMap writeChar ++ ['"']
  | none => "\"\\ud800\"".toList

mutual

/-- A value as JSON text. -/
def write : Json → Text
  | null => "null".toList
  | bool true => "true".toList
  | bool false => "false".toList
  | number literal => literal
  | string literal => writeString literal
  | array items => ['['] ++ writeItems items ++ [']']
  | object members => ['\x7b'] ++ writeMembers members ++ ['\x7d']

/-- Values with commas between them. -/
def writeItems : List Json → Text
  | [] => []
  | [item] => write item
  | item :: next :: rest => write item ++ [','] ++ writeItems (next :: rest)

/-- Members with commas between them. -/
def writeMembers : List (Literal × Json) → Text
  | [] => []
  | [(key, value)] => writeString key ++ [':'] ++ write value
  | (key, value) :: next :: rest =>
    writeString key ++ [':'] ++ write value ++ [','] ++ writeMembers (next :: rest)

end

end TokenMarkup.Json
