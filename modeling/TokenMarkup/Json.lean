import TokenMarkup.Text

/-!
# JSON values

The values that JSON texts spell. Two things are kept closer to the text than usual. A number is
kept as it is written, since nothing here calculates with numbers and a text may hold some that fit
no machine word. A string literal may spell nothing at all: its escapes can name one half of a
surrogate pair without the other. That is good JSON, and is refused only where the string is used.
-/

namespace TokenMarkup

/-- What a quoted literal spells, or nothing if one half of a surrogate pair stands alone in it. -/
abbrev Literal := Option String

/-- A JSON value. -/
inductive Json where
  | null
  | bool (value : Bool)
  | number (literal : Text)
  | string (literal : Literal)
  | array (items : List Json)
  | object (members : List (Literal × Json))
deriving Repr

namespace Json

instance : Inhabited Json := ⟨null⟩

/-- A string that spells a text. -/
def text (value : String) : Json := string (some value)

/-- A natural number, in decimal digits. -/
def nat (value : Nat) : Json := number (Nat.toDigits 10 value)

/-- An array of texts. -/
def texts (values : List String) : Json := array (values.map text)

/-- The value of a row of decimal digits. -/
def ofDigits (digits : Text) : Nat :=
  digits.foldl (fun value c => 10 * value + (c.toNat - '0'.toNat)) 0

/-- The natural number that a number literal is, if it has neither sign, fraction nor exponent. -/
def nat? (literal : Text) : Option Nat :=
  if !literal.isEmpty && literal.all Char.isDigit then some (ofDigits literal) else none

end Json

end TokenMarkup
