import TokenMarkup.Modifiers

/-!
# Tokens

A token says of a stretch of one line what it is: its type, such as `keyword`, and its modifiers.
Any name is a type; which ones are in use is up to the legend that comes with a stream.
-/

namespace TokenMarkup

/-- A stretch of a line with its type and modifiers. Lines count from zero, and so do positions in
a line, in the units of some `PositionEncoding`. A token of length zero marks a place. -/
structure Token where
  line : Nat
  start : Nat
  length : Nat
  type : String
  modifiers : Modifiers := .empty
deriving DecidableEq, Repr

namespace Token

/-- Where the token ends: the position after its last unit. -/
def stop (token : Token) : Nat := token.start + token.length

/-- Whether two tokens cover the same stretch and say the same of it, whatever the order of their
modifiers. -/
def agrees (a b : Token) : Bool :=
  a.line == b.line && a.start == b.start && a.length == b.length && a.type == b.type &&
    a.modifiers.agrees b.modifiers

/-- Whether two token lists agree token by token. -/
def listAgrees : List Token → List Token → Bool
  | [], [] => true
  | a :: as, b :: bs => a.agrees b && listAgrees as bs
  | _, _ => false

end Token

/-- The two kinds of names that a token carries. -/
inductive NameKind where
  | type
  | modifier
deriving DecidableEq, Repr

/-- A name as diagnostics show it, with its kind. -/
def NameKind.describe (kind : NameKind) (name : String) : String :=
  (match kind with
    | .type => "TokenType("
    | .modifier => "TokenModifier(") ++ Text.quoted name ++ ")"

end TokenMarkup
