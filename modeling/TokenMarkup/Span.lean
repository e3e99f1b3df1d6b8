import TokenMarkup.Boundary
import TokenMarkup.Token.Order

/-!
# Spans

A text is shown as a row of spans: stretches that a token covers, the text between them, and the
newlines between lines. Nothing is lost and nothing added, so the texts of the spans, one after the
other, are the text. `Span.ofTokens` cuts the lines of a text along its tokens.
-/

namespace TokenMarkup

/-- A stretch of text, with the token that covers it if there is one. -/
structure Span where
  text : Text
  token : Option Token
deriving DecidableEq, Repr

namespace Span

/-- A stretch that no token covers. -/
def plain (text : Text) : Span := ⟨text, none⟩

/-- A stretch that a token covers. -/
def styled (text : Text) (token : Token) : Span := ⟨text, some token⟩

/-- The newline between two lines. -/
def lineBreak : Span := plain ['\n']

/-- Whether a span is the newline between two lines. -/
def isLineBreak (span : Span) : Bool :=
  span.token.isNone && span.text == ['\n']

/-- A plain span for a text that is not empty. -/
def plain? (text : Text) : List Span :=
  if text.isEmpty then [] else [plain text]

/-- The place up to which a text has been cut: its line, the position in that line, and the lines
from there on, the current one first. -/
structure Cursor where
  row : Nat
  column : Nat
  lines : List Text
deriving DecidableEq, Repr

/-- Moves down to the line `target`, or behind the last line. What is left of the current line and
the lines in between become plain spans. -/
def descend (encoding : PositionEncoding) (target : Nat) :
    (row column : Nat) → List Text → Except Fault (List Span × Cursor)
  | row, column, [] => .ok ([], ⟨row, column, []⟩)
  | row, column, line :: rest =>
    if row < target then do
      let tail ← locate row (encoding.slice line column (encoding.length line))
      let (spans, cursor) ← descend encoding target (row + 1) 0 rest
      let separator := if rest.isEmpty then [] else [lineBreak]
      return (plain? tail ++ separator ++ spans, cursor)
    else .ok ([], ⟨row, column, line :: rest⟩)

/-- The gap in front of a token, and the token's own stretch. -/
def cutToken (encoding : PositionEncoding) (row column : Nat) (line : Text) (token : Token) :
    Except Fault (List Span) := do
  let gap ←
    if column < token.start then
      (fun text => [plain text]) <$> locate row (encoding.slice line column token.start)
    else pure []
  let text ← locate row (encoding.slice line token.start token.stop)
  return gap ++ [styled text token]

/-- Cuts the rest of the lines, of which there are `count` altogether, along the rest of the
tokens. -/
def cutFrom (encoding : PositionEncoding) (count : Nat) (frontier : Frontier) (cursor : Cursor) :
    List Token → Except Fault (List Span)
  | [] => do
    let (spans, _) ← descend encoding count cursor.row cursor.column cursor.lines
    return spans
  | token :: rest => do
    let frontier ← frontier.accept token
    if count ≤ token.line then throw (.lineOutOfRange token.line count)
    let (passed, cursor) ← descend encoding token.line cursor.row cursor.column cursor.lines
    match cursor.lines with
    | [] => throw (.lineOutOfRange token.line count)
    | line :: _ =>
      let cut ← cutToken encoding cursor.row cursor.column line token
      let others ← cutFrom encoding count frontier { cursor with column := token.stop } rest
      return passed ++ cut ++ others

/-- Cuts lines along tokens that are in order, with positions in units of `encoding`. A token on a
missing line, or with an end that is no boundary of its line, is a fault. -/
def ofTokens (tokens : List Token) (lines : List Text) (encoding : PositionEncoding) :
    Except Fault (List Span) :=
  cutFrom encoding lines.length { stream := .merged } ⟨0, 0, lines⟩ tokens

end Span

end TokenMarkup
