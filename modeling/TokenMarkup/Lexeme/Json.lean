import TokenMarkup.Json.Record
import TokenMarkup.Lexeme

/-!
# Lexemes in JSON

A compiler hands over its lexemes as an array of objects with the members `kind`, `start` and
`end`. The kind is a name, or an object whose only key is that name and whose value is null.
-/

namespace TokenMarkup

/-- Reads a kind. A name that is not known is no fault. -/
def LexemeKind.ofJson : Json → Except Json.Rejection LexemeKind
  | .string (some name) => .ok (ofName name)
  | .object [(some name, .null)] => .ok (ofName name)
  | _ => .error .malformed

/-- Lines and columns fit 32 bits. -/
def Location.coordinateBound : Nat := UInt32.size

/-- Reads a location. -/
def Location.ofJson (value : Json) : Except Json.Rejection Location := do
  let fields ← Json.readFields ["line", "column"] value
  let line ← Json.required fields "line" (Json.readNat coordinateBound)
  let column ← Json.required fields "column" (Json.readNat coordinateBound)
  return { line, column }

/-- Reads a lexeme. -/
def Lexeme.ofJson (value : Json) : Except Json.Rejection Lexeme := do
  let fields ← Json.readFields ["kind", "start", "end"] value
  let kind ← Json.required fields "kind" LexemeKind.ofJson
  let start ← Json.required fields "start" Location.ofJson
  let stop ← Json.required fields "end" Location.ofJson
  return { kind, start, stop }

/-- Reads the lexemes of a JSON text. -/
def Lexemes.parse (text : Text) : Except Json.Rejection (List Lexeme) :=
  Json.decode (Json.readList Lexeme.ofJson) text

end TokenMarkup
