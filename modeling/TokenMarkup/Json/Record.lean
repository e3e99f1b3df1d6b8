import TokenMarkup.Json.Reader
import TokenMarkup.PositionEncoding

/-!
# Values of JSON

Readers that turn a JSON value into a value of another type, or refuse it. A record, which has
named fields, may be written as an object, whose other members are passed over, or as an array of
its fields in order.
-/

namespace TokenMarkup.Json

/-- Why a JSON text is refused. -/
inductive Rejection where
  /-- The text is no JSON, or not of the right form. -/
  | malformed
  /-- An encoding is named that is not known. -/
  | unsupportedEncoding (name : String)
deriving DecidableEq, Repr

/-- What a rejection says about its cause. -/
def Rejection.detail? : Rejection → Option String
  | malformed => none
  | unsupportedEncoding name => some (PositionEncoding.unsupported name)

variable {α : Type}

/-- Reads a JSON text by a reader of values. -/
def decode (reader : Json → Except Rejection α) (text : Text) : Except Rejection α :=
  match parse? text with
  | some value => reader value
  | none => .error .malformed

/-- Reads a string, which has to spell a text. -/
def readText : Json → Except Rejection String
  | string (some value) => .ok value
  | _ => .error .malformed

/-- Reads a natural number below a bound. -/
def readNat (bound : Nat) : Json → Except Rejection Nat
  | number literal =>
    match nat? literal with
    | some value => if value < bound then .ok value else .error .malformed
    | none => .error .malformed
  | _ => .error .malformed

/-- Reads an array, item by item. -/
def readList (reader : Json → Except Rejection α) : Json → Except Rejection (List α)
  | array items => items.mapM reader
  | _ => .error .malformed

/-- Reads a value that may be null. -/
def readNullable (reader : Json → Except Rejection α) : Json → Except Rejection (Option α)
  | null => .ok none
  | value => some <$> reader value

/-- Reads the name of a position encoding. -/
def readEncoding (value : Json) : Except Rejection PositionEncoding := do
  let name ← readText value
  match PositionEncoding.parse? name with
  | some encoding => return encoding
  | none => throw (.unsupportedEncoding name)

/-! ## Records -/

/-- The fields of a record that are there, each with its value. -/
abbrev Fields := List (String × Json)

/-- The members of an object with a key in `names`. No key may be without meaning, whatever it is
for, and none of `names` may occur twice. -/
def memberFields (names : List String) : List (Literal × Json) → Except Rejection Fields
  | [] => .ok []
  | (none, _) :: _ => .error .malformed
  | (some key, value) :: rest => do
    let others ← memberFields names rest
    if names.contains key then
      if (others.lookup key).isSome then throw .malformed
      return (key, value) :: others
    else return others

/-- The fields of a record with fields `names`. -/
def readFields (names : List String) : Json → Except Rejection Fields
  | object members => memberFields names members
  | array items =>
    if items.length ≤ names.length then .ok (names.zip items) else .error .malformed
  | _ => .error .malformed

/-- Reads a field that has to be there. -/
def required (fields : Fields) (name : String) (reader : Json → Except Rejection α) :
    Except Rejection α :=
  match fields.lookup name with
  | some value => reader value
  | none => .error .malformed

/-- Reads a field that has a default. -/
def optional (fields : Fields) (name : String) (reader : Json → Except Rejection α)
    (default : α) : Except Rejection α :=
  match fields.lookup name with
  | some value => reader value
  | none => .ok default

end TokenMarkup.Json
