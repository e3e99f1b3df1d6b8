import TokenMarkup.Markup

/-!
# Settings

Two things can be set: the encoding of positions, against what a server announced, and the stem of
class names. Both can come from the environment, where a value that makes no sense is passed over.
-/

namespace TokenMarkup

/-- How texts are highlighted. -/
structure Settings where
  /-- The encoding to use whatever was announced. -/
  encoding : Option PositionEncoding := none
  /-- The stem of class names. -/
  stem : String := ClassStems.defaultStem
deriving DecidableEq, Repr

namespace Settings

/-- The environment variable for the encoding. -/
def encodingVariable : String := "LSP_HIGHLIGHT_POSITION_ENCODING"

/-- The environment variable for the stem. -/
def stemVariable : String := "LSP_HIGHLIGHT_CLASS_PREFIX"

/-- The characters that a stem may have: none of them needs an escape. -/
def isStemChar (c : Char) : Bool :=
  c.isAlphanum || c == '-' || c == '_'

/-- Reads a stem, without the blanks around it. -/
def stem? (value : String) : Option String :=
  let stem := Text.trim value.toList
  if !stem.isEmpty && stem.all isStemChar then some (String.ofList stem) else none

/-- The settings that an environment asks for. -/
def ofEnvironment (lookup : String → Option String) : Settings where
  encoding := (lookup encodingVariable).bind PositionEncoding.parse?
  stem := ((lookup stemVariable).bind stem?).getD ClassStems.defaultStem

/-- The class names to use. -/
def stems (settings : Settings) : ClassStems := .ofStem settings.stem

/-- The encoding to use: the one that was set, else the one that was announced, else UTF-16. -/
def resolve (settings : Settings) (announced : Option PositionEncoding) : PositionEncoding :=
  (settings.encoding.or announced).getD .utf16

end Settings

end TokenMarkup
