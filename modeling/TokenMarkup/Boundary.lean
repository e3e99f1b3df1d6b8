import TokenMarkup.Fault

/-!
# Character boundaries of a line

A position in a line is good only if it falls between two characters, or at an end of the line.
Every boundary can be counted in every encoding, and `PositionEncoding.convert` changes from one
count to the other. A position inside a character, or past the end, is a fault and never rounded.
-/

namespace TokenMarkup.PositionEncoding

/-- The boundary that lies `index` units of `source` into the line, counted in units of `target`. -/
def boundary? (source target : PositionEncoding) : Text → Nat → Option Nat
  | _, 0 => some 0
  | [], _ + 1 => none
  | c :: rest, index + 1 =>
    if source.width c ≤ index + 1 then
      (boundary? source target rest (index + 1 - source.width c)).map (target.width c + ·)
    else none

/-- What is wrong with an index that is no boundary of the line. -/
def boundaryFault (encoding : PositionEncoding) (line : Text) (index : Nat) : Fault :=
  .encodingBoundary none index encoding (encoding.length line)

/-- Counts a boundary of the line in another encoding. -/
def convert (line : Text) (index : Nat) (source target : PositionEncoding) : Except Fault Nat :=
  match boundary? source target line index with
  | some result => .ok result
  | none => .error (source.boundaryFault line index)

/-- The UTF-8 bytes of a line. -/
def bytes (line : Text) : List UInt8 :=
  line.flatMap String.utf8EncodeChar

/-- Whether a byte opens a character, that is, whether it is no continuation byte. -/
def opensChar (byte : UInt8) : Bool :=
  byte < 0x80 || 0xC0 ≤ byte

/-- Whether a byte index is a character boundary, seen from the bytes alone. -/
def isByteBoundary (line : Text) (index : Nat) : Bool :=
  match (bytes line)[index]? with
  | some byte => opensChar byte
  | none => index == (bytes line).length

/-- The byte index of a boundary. A byte index needs no conversion, only the check that it is a
boundary. -/
def byteOffset (encoding : PositionEncoding) (line : Text) (index : Nat) : Except Fault Nat :=
  if encoding = utf8 then
    if isByteBoundary line index then .ok index else .error (utf8.boundaryFault line index)
  else convert line index encoding utf8

/-- The line without its first `count` units. -/
def drop (encoding : PositionEncoding) : Nat → Text → Text
  | 0, line => line
  | _ + 1, [] => []
  | count + 1, c :: rest => drop encoding (count + 1 - encoding.width c) rest

/-- The first `count` units of the line. -/
def take (encoding : PositionEncoding) : Nat → Text → Text
  | 0, _ => []
  | _ + 1, [] => []
  | count + 1, c :: rest => c :: take encoding (count + 1 - encoding.width c) rest

/-- The part of the line between two boundaries. -/
def slice (encoding : PositionEncoding) (line : Text) (start stop : Nat) : Except Fault Text := do
  let startByte ← encoding.byteOffset line start
  let stopByte ← encoding.byteOffset line stop
  if stopByte < startByte then .error (encoding.boundaryFault line stop)
  else .ok (utf8.take (stopByte - startByte) (utf8.drop startByte line))

example : convert "aé😀".toList 3 utf8 utf16 = .ok 2 := rfl
example : convert "aé😀".toList 2 utf8 utf16 = .error (.encodingBoundary none 2 utf8 7) := rfl

end TokenMarkup.PositionEncoding
