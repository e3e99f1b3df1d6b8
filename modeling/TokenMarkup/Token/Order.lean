import TokenMarkup.Fault
import TokenMarkup.Token

/-!
# The order of a token stream

A stream is in order if every token starts on a later line than the one in front of it, or on the
same line where that one ended or behind. `Frontier.accept` checks this token by token, and
remembers no more than where the last token ended.
-/

namespace TokenMarkup

/-- How far a stream was read: how many tokens, and the line and position where the last ended. -/
structure Frontier where
  stream : Stream
  position : Nat := 0
  reached : Option (Nat × Nat) := none
deriving DecidableEq, Repr

namespace Frontier

/-- Whether a token may come next. -/
def admits (frontier : Frontier) (token : Token) : Bool :=
  match frontier.reached with
  | none => true
  | some (line, stop) => line < token.line || (token.line == line && stop ≤ token.start)

/-- The frontier behind a token. -/
def advance (frontier : Frontier) (token : Token) : Frontier :=
  { frontier with
    position := frontier.position + 1
    reached := some (token.line, token.stop) }

/-- Moves the frontier behind the next token, if that token is in order. -/
def accept (frontier : Frontier) (token : Token) : Except Fault Frontier :=
  match frontier.reached with
  | none => .ok (frontier.advance token)
  | some (line, stop) =>
    if frontier.admits token then .ok (frontier.advance token)
    else
      .error (.orderingViolation frontier.stream frontier.position token.line token.start line stop)

end Frontier

end TokenMarkup
