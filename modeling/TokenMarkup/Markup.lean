import TokenMarkup.Span

/-!
# Markup

Spans are written as an HTML fragment. A span with a token becomes a `span` element whose classes
name the token's type and modifiers, a plain span is its text. Text and names are escaped; the
stem of the class names is not, which is why `Settings` admits only stems that need no escape.
-/

namespace TokenMarkup

namespace Markup

/-- A character as it is written in text and in attribute values. -/
def escapeChar : Char → Text
  | '<' => "&lt;".toList
  | '>' => "&gt;".toList
  | '&' => "&amp;".toList
  | '"' => "&quot;".toList
  | '\'' => "&apos;".toList
  | c => [c]

/-- A text with its special characters escaped. -/
def escape (text : Text) : Text := text.flatMap escapeChar

end Markup

/-- What stands in front of a type's and a modifier's name in a class name. -/
structure ClassStems where
  type : String
  modifier : String
deriving DecidableEq, Repr

namespace ClassStems

/-- The stem in use when none is chosen. -/
def defaultStem : String := "lsp"

/-- The class names that grow from one stem. -/
def ofStem (stem : String) : ClassStems := ⟨stem ++ "-type-", stem ++ "-modifier-"⟩

/-- The class names that grow from the default stem. -/
def default : ClassStems := ofStem defaultStem

/-- The value of the class attribute for a token: one class for its type, then one for each
modifier. -/
def classes (stems : ClassStems) (token : Token) : Text :=
  stems.type.toList ++ Markup.escape token.type.toList ++
    token.modifiers.names.flatMap fun name =>
      ' ' :: stems.modifier.toList ++ Markup.escape name.toList

end ClassStems

namespace Markup

/-- A span as HTML. -/
def renderSpan (stems : ClassStems) (span : Span) : Text :=
  match span.token with
  | none => escape span.text
  | some token =>
    "<span class=\"".toList ++ stems.classes token ++ "\">".toList ++ escape span.text ++
      "</span>".toList

/-- Spans as one HTML fragment. -/
def render (stems : ClassStems) (spans : List Span) : Text := spans.flatMap (renderSpan stems)

end Markup

end TokenMarkup
