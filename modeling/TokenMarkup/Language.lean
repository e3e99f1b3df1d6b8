import TokenMarkup.Path
import TokenMarkup.Text.Blank

/-!
# Languages of source files

A language is known by its identifier, or found by the extension of a file. It decides whether
lexemes are used at all: only for the C family is there a compiler that reports them.
-/

namespace TokenMarkup

/-- A language, by name or by an identifier that has no name here. -/
inductive Language where
  | swift
  | c
  | cpp
  | objectiveC
  | objectiveCpp
  | html
  | css
  | json
  | markdown
  | yaml
  | xml
  | other (id : String)
deriving DecidableEq, Repr

namespace Language

/-- The language of a file extension, in any case. -/
def ofExtension? (extension : Text) : Option Language :=
  match String.ofList (Text.lowercase extension) with
  | "swift" => some swift
  | "c" | "h" => some c
  | "cpp" | "cc" | "cxx" | "hpp" => some cpp
  | "m" => some objectiveC
  | "mm" => some objectiveCpp
  | "html" | "htm" => some html
  | "css" => some css
  | "json" => some json
  | "md" | "markdown" => some markdown
  | "yml" | "yaml" => some yaml
  | "xml" => some xml
  | _ => none

/-- The language of the file at the end of a path, as far as its extension tells. -/
def ofPath? (path : String) : Option Language :=
  (Path.extension? path).bind ofExtension?

/-- The language with an identifier, which is taken exactly as it is. -/
def ofId : String → Language
  | "swift" => swift
  | "c" => c
  | "cpp" => cpp
  | "objective-c" => objectiveC
  | "objective-cpp" => objectiveCpp
  | "html" => html
  | "css" => css
  | "json" => json
  | "markdown" => markdown
  | "yaml" => yaml
  | "xml" => xml
  | id => other id

/-- The identifier of a language. -/
def id : Language → String
  | swift => "swift"
  | c => "c"
  | cpp => "cpp"
  | objectiveC => "objective-c"
  | objectiveCpp => "objective-cpp"
  | html => "html"
  | css => "css"
  | json => "json"
  | markdown => "markdown"
  | yaml => "yaml"
  | xml => "xml"
  | other id => id

/-- Whether the language has no name here. -/
def isOther : Language → Bool
  | other _ => true
  | _ => false

/-- Whether there is a compiler that reports lexemes of the language. -/
def hasLexer : Language → Bool
  | c | cpp | objectiveC | objectiveCpp => true
  | _ => false

/-- Reading the identifier of a language gives one with that identifier. -/
theorem id_ofId (name : String) : (ofId name).id = name := by
  unfold ofId
  split <;> rfl

end Language

end TokenMarkup
