import TokenMarkup.Json

/-!
# The symbols of a JSON text

A JSON text is a row of symbols with blanks between them: brackets, braces, commas, colons, the
three words, numbers and strings. `Json.symbols?` cuts a text into its symbols. It refuses what no
JSON text may contain: other words, numbers with a leading zero or without the digits they need,
strings that are not closed, that hold a bare control character or an escape that is none.
-/

namespace TokenMarkup.Json

/-- A symbol of a JSON text. -/
inductive Symbol where
  | openArray
  | closeArray
  | openObject
  | closeObject
  | comma
  | colon
  | null
  | bool (value : Bool)
  | number (literal : Text)
  | string (literal : Literal)
deriving DecidableEq, Repr

/-- The four characters that may stand between symbols. -/
def isSpace (c : Char) : Bool :=
  c == ' ' || c == '\t' || c == '\n' || c == '\r'

/-! ## Strings -/

/-- A piece of a string literal: a character, or half a surrogate pair that an escape names. -/
inductive Piece where
  | char (c : Char)
  | half (unit : Nat)
deriving DecidableEq, Repr

/-- Whether a code unit is the first half of a surrogate pair. -/
def isLeading (unit : Nat) : Bool := 0xD800 ≤ unit && unit < 0xDC00

/-- Whether a code unit is the second half of a surrogate pair. -/
def isTrailing (unit : Nat) : Bool := 0xDC00 ≤ unit && unit < 0xE000

/-- The piece that a code unit stands for. -/
def Piece.ofUnit (unit : Nat) : Piece :=
  if isLeading unit || isTrailing unit then half unit else char (Char.ofNat unit)

/-- The character that two halves make. -/
def pair (leading trailing : Nat) : Char :=
  Char.ofNat (0x10000 + (leading - 0xD800) * 0x400 + (trailing - 0xDC00))

/-- What a row of pieces spells, if every half has its partner behind or before it. -/
def spell : List Piece → Option Text
  | [] => some []
  | .char c :: rest => (spell rest).map (c :: ·)
  | .half leading :: .half trailing :: rest =>
    if isLeading leading && isTrailing trailing then
      (spell rest).map (pair leading trailing :: ·)
    else none
  | .half _ :: _ => none

/-- The value of a hexadecimal digit, in either case. -/
def hexDigit? (c : Char) : Option Nat :=
  if c.isDigit then some (c.toNat - '0'.toNat)
  else if 'a' ≤ c && c ≤ 'f' then some (c.toNat - 'a'.toNat + 10)
  else if 'A' ≤ c && c ≤ 'F' then some (c.toNat - 'A'.toNat + 10)
  else none

/-- The code unit that four hexadecimal digits name. -/
def codeUnit? (a b c d : Char) : Option Nat := do
  let a ← hexDigit? a
  let b ← hexDigit? b
  let c ← hexDigit? c
  let d ← hexDigit? d
  return ((a * 16 + b) * 16 + c) * 16 + d

/-- The character that a letter behind a backslash stands for. -/
def escaped? : Char → Option Char
  | '"' => some '"'
  | '\\' => some '\\'
  | '/' => some '/'
  | 'b' => some '\x08'
  | 'f' => some '\x0c'
  | 'n' => some '\n'
  | 'r' => some '\r'
  | 't' => some '\t'
  | _ => none

/-- The pieces of a string up to its closing quote, and what comes behind that. -/
def pieces? : Text → Option (List Piece × Text)
  | [] => none
  | '"' :: rest => some ([], rest)
  | '\\' :: 'u' :: a :: b :: c :: d :: rest => do
    let unit ← codeUnit? a b c d
    let (pieces, rest) ← pieces? rest
    return (.ofUnit unit :: pieces, rest)
  | '\\' :: letter :: rest => do
    let c ← escaped? letter
    let (pieces, rest) ← pieces? rest
    return (.char c :: pieces, rest)
  | c :: rest =>
    if c.toNat < 0x20 || c == '\\' then none
    else do
      let (pieces, rest) ← pieces? rest
      return (.char c :: pieces, rest)

/-! ## Numbers -/

/-- The digits at the front of a text, and what comes behind them. -/
def digits (text : Text) : Text × Text :=
  (text.takeWhile Char.isDigit, text.dropWhile Char.isDigit)

/-- A sign, if `signs` has the first character. -/
def sign (signs : List Char) : Text → Text × Text
  | [] => ([], [])
  | c :: rest => if signs.contains c then ([c], rest) else ([], c :: rest)

/-- The digits before the point. There is at least one, and no zero in front of others. -/
def whole? (text : Text) : Option (Text × Text) :=
  match digits text with
  | ([], _) => none
  | ('0' :: _ :: _, _) => none
  | found => some found

/-- The point and the digits behind it, of which there is at least one. -/
def fraction? : Text → Option (Text × Text)
  | '.' :: rest =>
    match digits rest with
    | ([], _) => none
    | (found, rest) => some ('.' :: found, rest)
  | rest => some ([], rest)

/-- The exponent, which has at least one digit. -/
def exponent? : Text → Option (Text × Text)
  | [] => some ([], [])
  | c :: rest =>
    if c == 'e' || c == 'E' then
      let (sign, rest) := sign ['+', '-'] rest
      match digits rest with
      | ([], _) => none
      | (found, rest) => some (c :: (sign ++ found), rest)
    else some ([], c :: rest)

/-- The number at the front of a text, as it is written, and what comes behind it. -/
def number? (text : Text) : Option (Text × Text) := do
  let (sign, rest) := sign ['-'] text
  let (whole, rest) ← whole? rest
  let (fraction, rest) ← fraction? rest
  let (exponent, rest) ← exponent? rest
  return (sign ++ whole ++ fraction ++ exponent, rest)

/-! ## Symbols -/

/-- The symbol at the front of a text, and what comes behind it. -/
def symbol? : Text → Option (Symbol × Text)
  | '[' :: rest => some (.openArray, rest)
  | ']' :: rest => some (.closeArray, rest)
  | '\x7b' :: rest => some (.openObject, rest)
  | '\x7d' :: rest => some (.closeObject, rest)
  | ',' :: rest => some (.comma, rest)
  | ':' :: rest => some (.colon, rest)
  | 'n' :: 'u' :: 'l' :: 'l' :: rest => some (.null, rest)
  | 't' :: 'r' :: 'u' :: 'e' :: rest => some (.bool true, rest)
  | 'f' :: 'a' :: 'l' :: 's' :: 'e' :: rest => some (.bool false, rest)
  | '"' :: rest => do
    let (pieces, rest) ← pieces? rest
    return (.string ((spell pieces).map String.ofList), rest)
  | text => do
    let (literal, rest) ← number? text
    return (.number literal, rest)

/-! Every symbol takes at least one character, so the text gets shorter. -/

theorem length_of_pieces? {text rest : Text} {pieces : List Piece}
    (found : pieces? text = some (pieces, rest)) : rest.length < text.length := by
  fun_induction pieces? text generalizing pieces rest <;>
    simp [Option.bind_eq_some_iff, pure] at found <;> grind

theorem length_digits (text : Text) :
    (digits text).1.length + (digits text).2.length = text.length := by
  rw [digits, ← List.length_append, List.takeWhile_append_dropWhile]

theorem length_sign_snd (signs : List Char) (text : Text) :
    (sign signs text).2.length ≤ text.length := by
  fun_cases sign signs text <;> simp

theorem length_of_whole? {text found rest : Text} (read : whole? text = some (found, rest)) :
    rest.length < text.length := by
  have total := length_digits text
  unfold whole? at read
  cases taken : digits text with
  | mk front behind =>
    rw [taken] at read total
    cases front with
    | nil => simp at read
    | cons c more =>
      split at read
      · simp_all
      · simp_all
      · simp_all
        omega

theorem length_of_fraction? {text found rest : Text} (read : fraction? text = some (found, rest)) :
    rest.length ≤ text.length := by
  unfold fraction? at read
  split at read
  · rename_i tail
    have total := length_digits tail
    split at read <;> grind
  · grind

theorem length_of_exponent? {text found rest : Text} (read : exponent? text = some (found, rest)) :
    rest.length ≤ text.length := by
  unfold exponent? at read
  split at read
  · grind
  · rename_i c tail
    have signed := length_sign_snd ['+', '-'] tail
    have total := length_digits (sign ['+', '-'] tail).2
    split at read
    · dsimp only at read
      split at read <;> grind
    · grind

theorem length_of_number? {text found rest : Text} (read : number? text = some (found, rest)) :
    rest.length < text.length := by
  simp [number?, Option.bind_eq_some_iff] at read
  obtain ⟨whole, behindWhole, readWhole, fraction, behindFraction, readFraction, exponent,
    readExponent, _⟩ := read
  have signed := length_sign_snd ['-'] text
  have := length_of_whole? readWhole
  have := length_of_fraction? readFraction
  have := length_of_exponent? readExponent
  omega

theorem length_of_symbol? {text rest : Text} {symbol : Symbol}
    (found : symbol? text = some (symbol, rest)) : rest.length < text.length := by
  unfold symbol? at found
  split at found <;> simp [Option.bind_eq_some_iff] at found
  case h_10 =>
    obtain ⟨pieces, read, _⟩ := found
    have := length_of_pieces? read
    grind
  case h_11 =>
    obtain ⟨literal, read, _⟩ := found
    exact length_of_number? read
  all_goals grind

/-- The symbols of a text, if it is made of symbols and blanks alone. -/
def symbols? : Text → Option (List Symbol)
  | [] => some []
  | c :: rest =>
    if isSpace c then symbols? rest
    else
      match _ : symbol? (c :: rest) with
      | none => none
      | some (symbol, behind) => (symbols? behind).map (symbol :: ·)
termination_by text => text.length
decreasing_by
  · exact Nat.lt_succ_self rest.length
  · exact length_of_symbol? ‹symbol? (c :: rest) = some (symbol, behind)›

end TokenMarkup.Json
