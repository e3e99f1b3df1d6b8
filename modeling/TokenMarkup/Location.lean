/-!
# Source locations

A compiler counts lines from one, and columns from one in bytes. Locations are ordered by line,
then by column.
-/

namespace TokenMarkup

/-- A line and a byte column, both counted from one. -/
structure Location where
  line : Nat
  column : Nat
deriving DecidableEq, Repr

namespace Location

/-- Whether `a` stands before `b`. -/
def precedes (a b : Location) : Bool :=
  a.line < b.line || (a.line == b.line && a.column < b.column)

/-- Whether both coordinates really count from one. -/
def isOneBased (location : Location) : Bool :=
  1 ≤ location.line && 1 ≤ location.column

/-- A location as messages write it. -/
def text (location : Location) : String :=
  toString location.line ++ ":" ++ toString location.column

end Location

end TokenMarkup
