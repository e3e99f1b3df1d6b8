import TokenMarkup.Files
import TokenMarkup.Language
import TokenMarkup.Lexeme.Json

/-!
# Providers of lexemes

A provider brings the lexemes of a source file. The registry holds at most one provider for each
language; a language without one has no lexemes.
-/

namespace TokenMarkup

/-- A source of lexemes. -/
inductive Provider where
  /-- A JSON file that some compiler wrote. -/
  | jsonFile (path : String)
deriving DecidableEq, Repr

/-- Why a file of lexemes is of no use. -/
inductive LexemeFault where
  | unreadable (path : String) (cause : ReadFault)
  | malformed (path : String)
deriving DecidableEq, Repr

/-- A fault of a file of lexemes in words. -/
def LexemeFault.message : LexemeFault → String
  | unreadable path _ => "Failed to read compiler tokens from " ++ path
  | malformed path => "Failed to parse compiler tokens in " ++ path

namespace Provider

/-- The name of a kind of provider. -/
def name : Provider → String
  | jsonFile _ => "json-file"

/-- The lexemes that a provider has. -/
def lexemes (files : Files) : Provider → Except LexemeFault (List Lexeme)
  | jsonFile path =>
    match readText files path with
    | .error cause => .error (.unreadable path cause)
    | .ok text =>
      match Lexemes.parse text with
      | .ok lexemes => .ok lexemes
      | .error _ => .error (.malformed path)

end Provider

/-- Why the provider of a language has no lexemes. -/
structure ProviderFault where
  provider : Provider
  language : Language
  cause : LexemeFault
deriving DecidableEq, Repr

/-- A fault of a provider in words. -/
def ProviderFault.message (fault : ProviderFault) : String :=
  fault.provider.name ++ " provider failed for " ++ fault.language.id ++ ": " ++
    fault.cause.message

/-- Providers by language, the latest first. -/
structure Registry where
  providers : List (Language × Provider)
deriving DecidableEq, Repr

namespace Registry

/-- No providers. -/
def empty : Registry := ⟨[]⟩

/-- Sets the provider of a language, in place of an earlier one. -/
def register (registry : Registry) (language : Language) (provider : Provider) : Registry :=
  ⟨(language, provider) :: registry.providers.filter fun entry => entry.1 != language⟩

/-- The provider of a language. -/
def provider? (registry : Registry) (language : Language) : Option Provider :=
  registry.providers.lookup language

/-- The lexemes for a language, none if it has no provider. -/
def lexemes (registry : Registry) (files : Files) (language : Language) :
    Except ProviderFault (List Lexeme) :=
  match registry.provider? language with
  | none => .ok []
  | some provider => (provider.lexemes files).mapError fun cause => ⟨provider, language, cause⟩

end Registry

end TokenMarkup
