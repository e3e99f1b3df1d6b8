import TokenMarkup.Language
import TokenMarkup.Lexeme.Pieces
import TokenMarkup.Overlay
import TokenMarkup.Settings
import TokenMarkup.Wire

/-!
# Highlighting a text

A request brings a text, the semantic tokens of a language server and the lexemes of a compiler.
The semantic stream is decoded, the lexemes become tokens, the first are laid over the second, the
text is cut along the outcome, and the spans are written as markup. The first fault ends it all:
there is no half-highlighted text.
-/

namespace TokenMarkup

/-- A text with all that is known of its tokens. -/
structure Request where
  text : Text
  /-- The relative stream of semantic tokens. -/
  stream : List UInt32
  legend : Legend
  /-- The encoding that the server announced. -/
  announced : Option PositionEncoding := none
  lexemes : List Lexeme := []
  /-- The language of the text, if it is known. -/
  language : Option Language := none
deriving DecidableEq, Repr

namespace Request

/-- The lines of the text. -/
def lines (request : Request) : List Text := request.text.lines

/-- The encoding in which the positions of the stream are counted. -/
def encoding (request : Request) (settings : Settings) : PositionEncoding :=
  settings.resolve request.announced

/-- Whether there are lexemes and the language, if it is known, is one with a lexer. -/
def usesLexemes (request : Request) : Bool :=
  request.language.all Language.hasLexer && !request.lexemes.isEmpty

/-- The semantic tokens. -/
def semantic (request : Request) : Except Fault (List Token) :=
  Wire.decode request.stream request.legend

/-- The lexical tokens. -/
def lexical (request : Request) (settings : Settings) : Except Fault (List Token) :=
  if request.usesLexemes then
    Lexemes.tokens request.lexemes request.lines (request.encoding settings)
  else .ok []

/-- The semantic tokens laid over the lexical ones. Without lexical tokens the order of the
semantic ones is still checked. -/
def overlay (request : Request) (settings : Settings) : Except Fault Overlay := do
  let semantic ← request.semantic
  let lexical ← request.lexical settings
  Overlay.merge semantic lexical

/-- The tokens of the text. -/
def tokens (request : Request) (settings : Settings) : Except Fault (List Token) :=
  Overlay.tokens <$> request.overlay settings

/-- The spans of the text. -/
def spans (request : Request) (settings : Settings) : Except Fault (List Span) := do
  let tokens ← request.tokens settings
  Span.ofTokens tokens request.lines (request.encoding settings)

/-- The text as markup. -/
def markup (request : Request) (settings : Settings) : Except Fault Text :=
  Markup.render settings.stems <$> request.spans settings

end Request

end TokenMarkup
