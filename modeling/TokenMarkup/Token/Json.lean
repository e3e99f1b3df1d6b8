import TokenMarkup.Json.Record
import TokenMarkup.Json.Writer
import TokenMarkup.Token

/-!
# Tokens in JSON

A token is written as an object with the members `line`, `startChar`, `length`, `type` and, unless
there are none, `modifiers`. Modifiers are read as they stand, also repeated ones.
-/

namespace TokenMarkup.Token

/-- Positions and lengths fit 64 bits. -/
def positionBound : Nat := UInt64.size

/-- A token as a JSON value. -/
def toJson (token : Token) : Json :=
  .object ([(some "line", .nat token.line), (some "startChar", .nat token.start),
      (some "length", .nat token.length), (some "type", .text token.type)] ++
    if token.modifiers.isEmpty then []
    else [(some "modifiers", .texts token.modifiers.names)])

/-- Reads modifiers as they stand. -/
def readModifiers (value : Json) : Except Json.Rejection Modifiers :=
  Modifiers.mk <$> Json.readList Json.readText value

/-- Reads a token. -/
def ofJson (value : Json) : Except Json.Rejection Token := do
  let fields ← Json.readFields ["line", "startChar", "length", "type", "modifiers"] value
  let line ← Json.required fields "line" (Json.readNat positionBound)
  let start ← Json.required fields "startChar" (Json.readNat positionBound)
  let length ← Json.required fields "length" (Json.readNat positionBound)
  let type ← Json.required fields "type" Json.readText
  let modifiers ← Json.optional fields "modifiers" readModifiers .empty
  return { line, start, length, type, modifiers }

end TokenMarkup.Token
