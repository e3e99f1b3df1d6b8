import TokenMarkup.Boundary
import TokenMarkup.Lexeme
import TokenMarkup.Token

/-!
# From lexemes to tokens

A token stays on one line, so a lexeme becomes one token for each line that it covers: from its
start column to the end of its first line, all of every line in between, and up to its stop column
on its last line. Byte columns are counted anew in the units of the target encoding.
-/

namespace TokenMarkup

namespace Lexeme

/-- The fault of a lexeme, number `position` of its list, with a range that makes no sense. -/
def rangeFault (lexeme : Lexeme) (position : Nat) : Fault :=
  .invalidRange position lexeme.start lexeme.stop

/-- The byte columns, counted from zero, between which a lexeme covers the line `row`, which counts
from zero as well. -/
def columns (lexeme : Lexeme) (row : Nat) (line : Text) : Nat × Nat :=
  (if row + 1 = lexeme.start.line then lexeme.start.column - 1 else 0,
    if row + 1 = lexeme.stop.line then lexeme.stop.column - 1
    else PositionEncoding.utf8.length line)

/-- The token for the part of a lexeme on the line `row`. -/
def piece (target : PositionEncoding) (lines : List Text) (position : Nat) (lexeme : Lexeme)
    (type : String) (row : Nat) : Except Fault Token :=
  match lines[row]? with
  | none => .error (.lineOutOfRange row lines.length)
  | some line => do
    let (startByte, stopByte) := lexeme.columns row line
    let start ← locate row (PositionEncoding.convert line startByte .utf8 target)
    let stop ← locate row (PositionEncoding.convert line stopByte .utf8 target)
    if stop < start then throw (lexeme.rangeFault position)
    return { line := row, start, length := stop - start, type }

/-- The tokens for the parts of a lexeme on `count` lines from `row` on. -/
def piecesFrom (target : PositionEncoding) (lines : List Text) (position : Nat) (lexeme : Lexeme)
    (type : String) (row : Nat) : Nat → Except Fault (List Token)
  | 0 => .ok []
  | count + 1 => do
    let token ← lexeme.piece target lines position type row
    let others ← lexeme.piecesFrom target lines position type (row + 1) count
    return token :: others

/-- The tokens of a lexeme, number `position` of its list. A lexeme whose kind is not shown has
none, whatever its range. -/
def pieces (target : PositionEncoding) (lines : List Text) (position : Nat) (lexeme : Lexeme) :
    Except Fault (List Token) :=
  match lexeme.kind.tokenType? with
  | none => .ok []
  | some type =>
    if lexeme.hasValidRange then
      lexeme.piecesFrom target lines position type (lexeme.start.line - 1)
        (lexeme.stop.line + 1 - lexeme.start.line)
    else .error (lexeme.rangeFault position)

end Lexeme

namespace Lexemes

/-- The tokens of a list of lexemes, the first of which has number `position`. -/
def tokensFrom (target : PositionEncoding) (lines : List Text) (position : Nat) :
    List Lexeme → Except Fault (List Token)
  | [] => .ok []
  | lexeme :: rest => do
    let pieces ← lexeme.pieces target lines position
    let others ← tokensFrom target lines (position + 1) rest
    return pieces ++ others

/-- The tokens of a list of lexemes over the lines of a text. -/
def tokens (lexemes : List Lexeme) (lines : List Text) (target : PositionEncoding) :
    Except Fault (List Token) :=
  tokensFrom target lines 0 lexemes

/-- How many lexemes are of a kind that is not shown. -/
def dropped (lexemes : List Lexeme) : Nat :=
  lexemes.countP fun lexeme => lexeme.kind.tokenType?.isNone

end Lexemes

end TokenMarkup
