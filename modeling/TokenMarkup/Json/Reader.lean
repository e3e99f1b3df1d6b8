import TokenMarkup.Json.Symbol

/-!
# Reading JSON

The symbols of a text go one by one through a machine that keeps the arrays and objects which are
still open on a stack of its own. So any depth of nesting can be read, and what is done with a
symbol depends only on the state before it.
-/

namespace TokenMarkup.Json

/-- An array or object that is still open around the value being read. -/
inductive Frame where
  /-- An array, with the items before that value, latest first. -/
  | array (before : List Json)
  /-- An object, with the members before that value, latest first, and the key of the value. -/
  | object (before : List (Literal × Json)) (key : Literal)

/-- What was read and what may come next. The frames are the open arrays and objects, innermost
first. -/
inductive State where
  /-- A value has to come. -/
  | due (frames : List Frame)
  /-- An array was opened: a value or the end of the array. -/
  | firstItem (frames : List Frame)
  /-- An object was opened: a key or the end of the object. -/
  | firstMember (frames : List Frame)
  /-- Behind a comma of an object: a key. -/
  | nextMember (before : List (Literal × Json)) (frames : List Frame)
  /-- Behind a key: a colon. -/
  | colon (before : List (Literal × Json)) (key : Literal) (frames : List Frame)
  /-- A value is complete. -/
  | complete (value : Json) (frames : List Frame)

namespace State

/-- Begins a value inside the frames. -/
def enter (frames : List Frame) : Symbol → Option State
  | .null => some (complete .null frames)
  | .bool value => some (complete (.bool value) frames)
  | .number literal => some (complete (.number literal) frames)
  | .string literal => some (complete (.string literal) frames)
  | .openArray => some (firstItem frames)
  | .openObject => some (firstMember frames)
  | .closeArray | .closeObject | .comma | .colon => none

/-- The state behind a symbol, if that symbol may stand here. -/
def step : State → Symbol → Option State
  | due frames, symbol => enter frames symbol
  | firstItem frames, .closeArray => some (complete (.array []) frames)
  | firstItem frames, symbol => enter (.array [] :: frames) symbol
  | firstMember frames, .closeObject => some (complete (.object []) frames)
  | firstMember frames, .string key => some (colon [] key frames)
  | nextMember before frames, .string key => some (colon before key frames)
  | colon before key frames, .colon => some (due (.object before key :: frames))
  | complete item (.array before :: frames), .comma =>
    some (due (.array (item :: before) :: frames))
  | complete item (.array before :: frames), .closeArray =>
    some (complete (.array (item :: before).reverse) frames)
  | complete member (.object before key :: frames), .comma =>
    some (nextMember ((key, member) :: before) frames)
  | complete member (.object before key :: frames), .closeObject =>
    some (complete (.object ((key, member) :: before).reverse) frames)
  | _, _ => none

/-- The value that was read, if nothing is open any more. -/
def result? : State → Option Json
  | complete value [] => some value
  | _ => none

end State

/-- The value that a row of symbols spells. -/
def ofSymbols? (symbols : List Symbol) : Option Json := do
  let state ← symbols.foldlM State.step (.due [])
  state.result?

/-- The value that a text spells. Blanks may stand around it, and nothing else. -/
def parse? (text : Text) : Option Json := do
  let symbols ← symbols? text
  ofSymbols? symbols

end TokenMarkup.Json
