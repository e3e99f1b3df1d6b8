import TokenMarkup.Location

/-!
# Lexemes of a compiler

A compiler's own lexer reports tokens that no language server knows of, such as comments and
literals. A lexeme may run over several lines. Its kind decides the token type that it is shown
with; a kind that this library does not know is not shown.
-/

namespace TokenMarkup

/-- What a compiler says a lexeme is. -/
inductive LexemeKind where
  | comment
  | keyword
  | operator
  | literalString
  | literalCharacter
  | literalNumeric
  | preprocessingDirective
  | inclusionDirective
  | macroDefinition
  | unknown
deriving DecidableEq, Repr

namespace LexemeKind

/-- The name of a kind. -/
def name : LexemeKind → String
  | comment => "comment"
  | keyword => "keyword"
  | operator => "operator"
  | literalString => "literalString"
  | literalCharacter => "literalCharacter"
  | literalNumeric => "literalNumeric"
  | preprocessingDirective => "preprocessingDirective"
  | inclusionDirective => "inclusionDirective"
  | macroDefinition => "macroDefinition"
  | unknown => "unknown"

/-- The kind of a name. Names that are not known are all of kind `unknown`. -/
def ofName : String → LexemeKind
  | "comment" => comment
  | "keyword" => keyword
  | "operator" => operator
  | "literalString" => literalString
  | "literalCharacter" => literalCharacter
  | "literalNumeric" => literalNumeric
  | "preprocessingDirective" => preprocessingDirective
  | "inclusionDirective" => inclusionDirective
  | "macroDefinition" => macroDefinition
  | _ => unknown

/-- The token type that lexemes of a kind are shown with. -/
def tokenType? : LexemeKind → Option String
  | comment => some "comment"
  | keyword => some "keyword"
  | operator => some "operator"
  | literalString => some "string"
  | literalCharacter => some "number"
  | literalNumeric => some "number"
  | preprocessingDirective => some "macro"
  | inclusionDirective => some "macro"
  | macroDefinition => some "macro"
  | unknown => none

@[simp] theorem ofName_name (kind : LexemeKind) : ofName kind.name = kind := by
  cases kind <;> rfl

end LexemeKind

/-- A stretch of source text as a compiler reports it, up to but without `stop`. -/
structure Lexeme where
  kind : LexemeKind
  start : Location
  stop : Location
deriving DecidableEq, Repr

namespace Lexeme

/-- Whether the range counts from one and does not end before it starts. -/
def hasValidRange (lexeme : Lexeme) : Bool :=
  lexeme.start.isOneBased && lexeme.stop.isOneBased && !lexeme.stop.precedes lexeme.start

end Lexeme

end TokenMarkup
