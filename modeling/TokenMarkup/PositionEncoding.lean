import TokenMarkup.Text.Blank

/-!
# Position encodings

A position inside a line is a count of code units, and the two sides that exchange positions have
to agree on which units they count. A character is one to four UTF-8 units, one or two UTF-16
units, and always one UTF-32 unit.
-/

namespace TokenMarkup

/-- The code units in which a position inside a line is counted. -/
inductive PositionEncoding where
  | utf8
  | utf16
  | utf32
deriving DecidableEq, Repr

namespace PositionEncoding

/-- UTF-16 is what the protocol assumes when nothing else was agreed. -/
instance : Inhabited PositionEncoding := ⟨utf16⟩

/-- The name under which the encoding is announced. -/
def name : PositionEncoding → String
  | utf8 => "utf-8"
  | utf16 => "utf-16"
  | utf32 => "utf-32"

/-- Reads a name, whatever its case and the blanks around it. Besides the announced names there
are a few common spellings. -/
def parse? (name : String) : Option PositionEncoding :=
  match String.ofList (Text.lowercase (Text.trim name.toList)) with
  | "utf-8" | "utf8" | "byte" | "bytes" => some utf8
  | "utf-16" | "utf16" => some utf16
  | "utf-32" | "utf32" | "scalar" | "scalars" => some utf32
  | _ => none

/-- What is said about a name that `parse?` does not know. -/
def unsupported (name : String) : String :=
  "unsupported position encoding '" ++ name ++ "'"

/-- How many units a character takes. -/
def width : PositionEncoding → Char → Nat
  | utf8, c => c.utf8Size
  | utf16, c => if c.toNat < 0x10000 then 1 else 2
  | utf32, _ => 1

/-- How many units a line takes. -/
def length (encoding : PositionEncoding) (line : Text) : Nat :=
  line.foldr (fun c units => encoding.width c + units) 0

theorem width_pos (encoding : PositionEncoding) (c : Char) : 0 < encoding.width c := by
  cases encoding
  · exact c.utf8Size_pos
  · simp only [width]; split <;> decide
  · exact Nat.one_pos

@[simp] theorem length_nil (encoding : PositionEncoding) : encoding.length [] = 0 := rfl

@[simp] theorem length_cons (encoding : PositionEncoding) (c : Char) (rest : Text) :
    encoding.length (c :: rest) = encoding.width c + encoding.length rest := rfl

end PositionEncoding

end TokenMarkup
