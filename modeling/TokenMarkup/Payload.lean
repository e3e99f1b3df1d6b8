import TokenMarkup.Json.Record
import TokenMarkup.Json.Writer
import TokenMarkup.Wire

/-!
# Payloads of semantic tokens

A language server hands over semantic tokens as a JSON object whose member `data` is a relative
stream. The legend and the position encoding that were agreed on may come along; other members,
such as an identifier of the result, are passed over.
-/

namespace TokenMarkup

/-- A stream of semantic tokens with what is needed to read it. -/
structure Payload where
  legend : Option AnnouncedLegend
  encoding : Option PositionEncoding
  data : List UInt32
deriving DecidableEq, Repr

/-- Reads an announced legend. -/
def AnnouncedLegend.ofJson (value : Json) : Except Json.Rejection AnnouncedLegend := do
  let fields ← Json.readFields ["tokenTypes", "tokenModifiers"] value
  let tokenTypes ← Json.required fields "tokenTypes" (Json.readList Json.readText)
  let tokenModifiers ← Json.required fields "tokenModifiers" (Json.readList Json.readText)
  return { tokenTypes, tokenModifiers }

/-- An announced legend as a JSON value. -/
def AnnouncedLegend.toJson (legend : AnnouncedLegend) : Json :=
  .object [(some "tokenTypes", .texts legend.tokenTypes),
    (some "tokenModifiers", .texts legend.tokenModifiers)]

namespace Payload

/-- Reads an entry of a stream. -/
def readEntry (value : Json) : Except Json.Rejection UInt32 :=
  UInt32.ofNat <$> Json.readNat UInt32.size value

/-- Reads a payload. -/
def ofJson (value : Json) : Except Json.Rejection Payload := do
  let fields ← Json.readFields ["legend", "positionEncoding", "data"] value
  let legend ← Json.optional fields "legend" (Json.readNullable AnnouncedLegend.ofJson) none
  let encoding ← Json.optional fields "positionEncoding" (Json.readNullable Json.readEncoding) none
  let data ← Json.required fields "data" (Json.readList readEntry)
  return { legend, encoding, data }

/-- Reads a payload from a JSON text. -/
def parse (text : Text) : Except Json.Rejection Payload := Json.decode ofJson text

/-- A payload as a JSON value. What is absent is left out. -/
def toJson (payload : Payload) : Json :=
  .object <|
    (match payload.legend with
      | some legend => [(some "legend", legend.toJson)]
      | none => []) ++
    (match payload.encoding with
      | some encoding => [(some "positionEncoding", .text encoding.name)]
      | none => []) ++
    [(some "data", .array (payload.data.map fun entry => .nat entry.toNat))]

/-- A payload as JSON text. -/
def serialize (payload : Payload) : Text := payload.toJson.write

/-- The payload of a list of relative tokens. -/
def ofTokens (tokens : List RelativeToken) (legend : Option AnnouncedLegend)
    (encoding : Option PositionEncoding) : Payload :=
  { legend, encoding, data := Wire.flatten tokens }

/-- The legend to read the stream with. -/
def tokenLegend (payload : Payload) : Legend :=
  match payload.legend with
  | some legend => legend.legend
  | none => .default

/-- What is said of a text that is no payload. -/
def malformedMessage : String := "Failed to parse semantic tokens payload"

end Payload

end TokenMarkup
