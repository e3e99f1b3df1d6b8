import TokenMarkup.Token.Order

/-!
# Laying semantic tokens over lexical ones

A language server and a compiler both say what a text is made of, and where they overlap the
server knows better. `Overlay.merge` joins the two streams into one that is in order again: every
semantic (primary) token stays, and a lexical (secondary) token stays unless it overlaps a primary
one. It walks down both streams and looks only at their two heads.
-/

namespace TokenMarkup

/-- What to do with the heads of the two streams. -/
inductive Verdict where
  /-- The primary head comes next. -/
  | primary
  /-- The secondary head comes next. -/
  | secondary
  /-- The secondary head is left out, as the primary one covers it. -/
  | occlude
deriving DecidableEq, Repr

/-- Compares the two heads. Tokens of length zero overlap nothing at their own start; a secondary
one comes before a primary token that starts there, and a primary one before a secondary token. -/
def Verdict.of (primary secondary : Token) : Verdict :=
  if primary.line < secondary.line then .primary
  else if secondary.line < primary.line then .secondary
  else if primary.start < secondary.start then
    if secondary.start < primary.stop then .occlude else .primary
  else if secondary.start < primary.start then
    if primary.start < secondary.stop then .occlude else .secondary
  else if secondary.length = 0 then .secondary
  else if primary.length = 0 then .primary
  else .occlude

/-- Two streams joined: the tokens that stay, and how many were left out. -/
structure Overlay where
  tokens : List Token
  occluded : Nat
deriving DecidableEq, Repr

namespace Overlay

/-- Puts a token in front. -/
def emit (token : Token) (overlay : Overlay) : Overlay :=
  { overlay with tokens := token :: overlay.tokens }

/-- Counts one more token that was left out. -/
def occlude (overlay : Overlay) : Overlay :=
  { overlay with occluded := overlay.occluded + 1 }

/-- Joins what is left of the two streams, given how far each was read. -/
def mergeFrom (first second : Frontier) : List Token → List Token → Except Fault Overlay
  | [], [] => .ok ⟨[], 0⟩
  | p :: ps, [] => do
    let first ← first.accept p
    emit p <$> mergeFrom first second ps []
  | [], s :: ss => do
    let second ← second.accept s
    emit s <$> mergeFrom first second [] ss
  | p :: ps, s :: ss =>
    match Verdict.of p s with
    | .primary => do
      let first ← first.accept p
      emit p <$> mergeFrom first second ps (s :: ss)
    | .secondary => do
      let second ← second.accept s
      emit s <$> mergeFrom first second (p :: ps) ss
    | .occlude => do
      let second ← second.accept s
      occlude <$> mergeFrom first second (p :: ps) ss
termination_by ps ss => ps.length + ss.length

/-- Lays the primary tokens over the secondary ones. Both streams have to be in order. -/
def merge (primary secondary : List Token) : Except Fault Overlay :=
  mergeFrom { stream := .semantic } { stream := .lexical } primary secondary

end Overlay

end TokenMarkup
