import TokenMarkup.Text

/-!
# Quoted names

The form in which diagnostics show a name: between double quotes, with an escape for every
character that could not be told from the quotes or would not be seen.
-/

namespace TokenMarkup.Text

/-- Whether a character belongs to one of the two control blocks, or is the delete character
between them. -/
def isControl (c : Char) : Bool :=
  c.toNat < 0x20 || (0x7F ≤ c.toNat && c.toNat < 0xA0)

/-- One character of a quoted name. -/
def quotedChar (c : Char) : Text :=
  match c with
  | '"' => ['\\', '"']
  | '\\' => ['\\', '\\']
  | '\n' => ['\\', 'n']
  | '\r' => ['\\', 'r']
  | '\t' => ['\\', 't']
  | '\x00' => ['\\', '0']
  | c =>
    if isControl c then ['\\', 'u', '\x7b'] ++ Nat.toDigits 16 c.toNat ++ ['\x7d'] else [c]

/-- A name between double quotes. -/
def quoted (name : String) : String :=
  String.ofList (['"'] ++ name.toList.flatMap quotedChar ++ ['"'])

example : quotedChar '\x1b' = "\\u\x7b1b\x7d".toList := by decide

end TokenMarkup.Text
