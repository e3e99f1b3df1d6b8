import TokenMarkup.Location
import TokenMarkup.PositionEncoding

/-!
# Faults

What can be wrong with a request to highlight a text. A fault says what was found and where;
`Fault.message` puts it into words.
-/

namespace TokenMarkup

/-- The token sequences whose order is checked. -/
inductive Stream where
  | semantic
  | lexical
  | merged
deriving DecidableEq, Repr

/-- The word for a stream in messages. -/
def Stream.name : Stream → String
  | .semantic => "semantic"
  | .lexical => "lexical"
  | .merged => "merged"

/-- What is wrong at one entry of a relative token stream, or with a token that is to become one. -/
inductive Defect where
  /-- The stream does not divide into groups of `stride` entries. -/
  | ragged (length stride : Nat)
  /-- Token `ordinal` has a type the legend does not list. -/
  | undefinedType (ordinal index count : Nat)
  /-- Token `ordinal` has a modifier the legend does not list. -/
  | undefinedModifier (ordinal bit count : Nat)
  /-- A type name has no index in the legend. -/
  | unlistedType (name : String)
  /-- A modifier name has no bit in the legend, or one beyond the width of an entry. -/
  | unlistedModifier (name : String)
  /-- A number is too large for an entry. -/
  | oversized (value : Nat)
deriving DecidableEq, Repr

/-- A defect in words. -/
def Defect.message : Defect → String
  | .ragged length stride => s!"stream length {length} is not a multiple of {stride}"
  | .undefinedType ordinal index count =>
    s!"token #{ordinal} has type index {index} but the legend defines {count} types"
  | .undefinedModifier ordinal bit count =>
    s!"token #{ordinal} sets modifier bit {bit} but the legend defines {count} modifiers"
  | .unlistedType name => s!"token type '{name}' is not in the legend"
  | .unlistedModifier name => s!"token modifier '{name}' is not encodable with this legend"
  | .oversized value => s!"value {value} does not fit in 32 bits"

/-- Why a text cannot be highlighted. -/
inductive Fault where
  /-- A relative stream is wrong at entry `position`. -/
  | malformedStream (position : Nat) (defect : Defect)
  /-- `index` is no character boundary of a line of `length` units. The number of the line is
  filled in where it is known, see `Fault.onLine`. -/
  | encodingBoundary (line : Option Nat) (index : Nat) (encoding : PositionEncoding) (length : Nat)
  /-- Token `position` of a stream starts before the end of the token in front of it. -/
  | orderingViolation (stream : Stream) (position line start previousLine previousEnd : Nat)
  /-- A token stands on a line that the text does not have. -/
  | lineOutOfRange (line count : Nat)
  /-- A compiler token's range does not count from one, or ends before it starts. -/
  | invalidRange (position : Nat) (start stop : Location)
deriving DecidableEq, Repr

namespace Fault

/-- What is said of a stream that is wrong at an entry, given the reason in words. -/
def malformedMessage (position : Nat) (reason : String) : String :=
  "malformed token stream at position " ++ toString position ++ ": " ++ reason

/-- A fault in words. -/
def message : Fault → String
  | malformedStream position defect => malformedMessage position defect.message
  | encodingBoundary line index encoding length =>
    "index " ++ toString index ++ " is not a " ++ encoding.name ++ " boundary" ++
      (match line with
        | some n => " on line " ++ toString n
        | none => "") ++
      " (line length " ++ toString length ++ ")"
  | orderingViolation stream position line start previousLine previousEnd =>
    stream.name ++ s!" token #{position} at {line}:{start} is out of order " ++
      s!"(previous token ends at {previousLine}:{previousEnd})"
  | lineOutOfRange line count => s!"line {line} is out of range (text has {count} lines)"
  | invalidRange position start stop =>
    s!"compiler token #{position} has invalid range " ++ start.text ++ ".." ++ stop.text

/-- Says on which line a boundary fault arose. The innermost number stays. -/
def onLine (n : Nat) : Fault → Fault
  | encodingBoundary none index encoding length => encodingBoundary (some n) index encoding length
  | fault => fault

end Fault

/-- Says on which line a step that failed was working. -/
def locate {α : Type} (n : Nat) (result : Except Fault α) : Except Fault α :=
  result.mapError (Fault.onLine n)

end TokenMarkup
