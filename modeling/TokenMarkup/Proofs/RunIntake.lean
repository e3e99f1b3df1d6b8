import TokenMarkup.Proofs.JsonReading
import TokenMarkup.Proofs.SourceLanguage

/-!
# What a run reads

A run of the command line reads three files and two variables. What it is to make of them is said
here of the bytes of the files, of the JSON values in them and of the values of the variables, not
by the readers of a run: `Intake.IsRead`. There is at most one such intake (`Intake.IsRead.unique`).
-/

namespace TokenMarkup

/-! ## Files -/

/-- Whether a file holds a text, in UTF-8. -/
def HoldsText (files : Files) (path : String) (text : Text) : Prop :=
  files path = .ok (String.ofList text).toUTF8

/-- Whether a file holds a text of JSON by which something is given. -/
def HoldsJson {α : Type} (files : Files) (path : String) (given : α → Json → Prop) (content : α) :
    Prop :=
  ∃ text, HoldsText files path text ∧ Json.IsToldBy given content text

/-- Why there is no text to be had from a file. -/
inductive Unreadable (files : Files) (path : String) : ReadFault → Prop
  | unavailable {reason : String} (refused : files path = .error reason) :
      Unreadable files path (.unavailable reason)
  | notText {bytes : ByteArray} (there : files path = .ok bytes)
      (invalid : ∀ text, bytes ≠ (String.ofList text).toUTF8) : Unreadable files path .notText

section Reading

variable {files : Files} {path : String} {text : Text}

theorem textOfBytes_eq_ok_iff {bytes : ByteArray} :
    textOfBytes bytes = .ok text ↔ bytes = (String.ofList text).toUTF8 := by
  unfold textOfBytes String.fromUTF8?
  constructor
  · intro read
    split at read
    · next found =>
        split at found
        · cases found
          cases read
          rw [String.ofList_toList]
          rfl
        · cases found
    · cases read
  · rintro rfl
    have valid : (String.ofList text).toUTF8.IsValidUTF8 := (String.ofList text).isValidUTF8
    have decoded : String.fromUTF8 (String.ofList text).toUTF8 valid = String.ofList text := rfl
    simp only [dif_pos valid, decoded, String.toList_ofList]

theorem textOfBytes_eq_error_iff {bytes : ByteArray} {cause : ReadFault} :
    textOfBytes bytes = .error cause ↔
      cause = .notText ∧ ∀ text, bytes ≠ (String.ofList text).toUTF8 := by
  simp only [ne_eq, ← textOfBytes_eq_ok_iff]
  unfold textOfBytes
  cases String.fromUTF8? bytes <;> simp [eq_comm]

theorem readText_eq_ok_iff : readText files path = .ok text ↔ HoldsText files path text := by
  unfold readText HoldsText
  cases files path with
  | ok bytes => simp [textOfBytes_eq_ok_iff]
  | error reason => simp

theorem readText_eq_error_iff {cause : ReadFault} :
    readText files path = .error cause ↔ Unreadable files path cause := by
  unfold readText
  constructor
  · intro failed
    split at failed
    · next there =>
        obtain ⟨rfl, invalid⟩ := textOfBytes_eq_error_iff.mp failed
        exact .notText there invalid
    · next refused =>
        cases failed
        exact .unavailable refused
  · rintro (refused | ⟨there, invalid⟩)
    · simp only [refused]
    · simp only [there, textOfBytes_eq_error_iff]
      exact ⟨trivial, invalid⟩

theorem HoldsText.unique {other : Text} (first : HoldsText files path text)
    (second : HoldsText files path other) : text = other :=
  Except.ok.inj ((readText_eq_ok_iff.mpr first).symm.trans (readText_eq_ok_iff.mpr second))

theorem HoldsText.not_unreadable {cause : ReadFault} (holds : HoldsText files path text) :
    ¬ Unreadable files path cause := by
  intro unreadable
  cases (readText_eq_ok_iff.mpr holds).symm.trans (readText_eq_error_iff.mpr unreadable)

variable {α : Type} {given : α → Json → Prop} {content : α}

theorem HoldsJson.not_unreadable {cause : ReadFault} (holds : HoldsJson files path given content) :
    ¬ Unreadable files path cause := by
  obtain ⟨text, holds, -⟩ := holds
  exact holds.not_unreadable

theorem HoldsJson.isToldBy (holds : HoldsJson files path given content)
    (readable : HoldsText files path text) : Json.IsToldBy given content text := by
  obtain ⟨other, holds, told⟩ := holds
  rwa [readable.unique holds]

theorem HoldsJson.unique {reader : Json → Except Json.Rejection α} {other : α}
    (reads : Json.Reads reader given) (first : HoldsJson files path given content)
    (second : HoldsJson files path given other) : content = other := by
  obtain ⟨text, holds, told⟩ := first
  exact Except.ok.inj ((reads.decode.mpr told).symm.trans
    (reads.decode.mpr (second.isToldBy holds)))

end Reading

/-! ## Stems and encodings -/

/-- Whether a value stands for a stem: without the blanks around it it is the stem, which is not
empty and has only letters and digits of ASCII, dashes and underscores. -/
def Settings.IsStem (value stem : String) : Prop :=
  Text.IsTrimmed value.toList stem.toList ∧ stem.toList ≠ [] ∧
    ∀ c ∈ stem.toList, c.isAlphanum ∨ c = '-' ∨ c = '_'

theorem Settings.stem?_eq_some_iff {value stem : String} :
    stem? value = some stem ↔ IsStem value stem := by
  have same (trimmed : Text) : String.ofList trimmed = stem ↔ trimmed = stem.toList := by
    rw [← String.toList_inj, String.toList_ofList]
  have valid (trimmed : Text) : (!trimmed.isEmpty && trimmed.all isStemChar) = true ↔
      trimmed ≠ [] ∧ ∀ c ∈ trimmed, c.isAlphanum ∨ c = '-' ∨ c = '_' := by
    simp [isStemChar, or_assoc]
  unfold stem? IsStem
  simp only [Option.ite_none_right_eq_some, Option.some.injEq, valid, same, ← Text.trim_eq_iff]
  constructor
  · rintro ⟨chars, trimmed⟩
    exact ⟨trimmed, trimmed ▸ chars⟩
  · rintro ⟨trimmed, chars⟩
    exact ⟨trimmed ▸ chars, trimmed⟩

/-- A variable is as good as unset if its value, if any, stands for no stem. -/
theorem Settings.bind_stem?_eq_none_iff {found : Option String} :
    found.bind stem? = none ↔
      ∀ value, found = some value → ∀ stem, ¬ IsStem value stem := by
  rw [Option.bind_eq_none_iff]
  simp only [Option.eq_none_iff_forall_ne_some, ne_eq, stem?_eq_some_iff]

theorem PositionEncoding.bind_parse?_eq_none_iff {found : Option String} :
    found.bind parse? = none ↔
      ∀ value, found = some value → ∀ encoding : PositionEncoding, ¬ encoding.IsNamed value := by
  rw [Option.bind_eq_none_iff]
  simp only [Option.eq_none_iff_forall_ne_some, ne_eq, parse?_eq_some_iff]

namespace CommandLine

variable {files : Files} {environment : Environment} {options : Options}

/-! ## What a run works with -/

namespace Options

/-- Whether a run is to use a stem: that of the options, else a valid one of the environment, else
the default. None is to be used if the options have a value that makes no sense. -/
inductive UsesStem (options : Options) (environment : Environment) : String → Prop
  | given {value stem : String} (flag : options.classPrefix = some value)
      (valid : Settings.IsStem value stem) : UsesStem options environment stem
  | set {value stem : String} (noFlag : options.classPrefix = none)
      (there : environment "LSP_HIGHLIGHT_CLASS_PREFIX" = some value)
      (valid : Settings.IsStem value stem) : UsesStem options environment stem
  | default (noFlag : options.classPrefix = none)
      (unset : ∀ value, environment "LSP_HIGHLIGHT_CLASS_PREFIX" = some value →
        ∀ stem, ¬ Settings.IsStem value stem) : UsesStem options environment "lsp"

/-- Whether a run is to use an encoding: that of the options, else a valid one of the environment,
else the announced one, else UTF-16. -/
inductive UsesEncoding (options : Options) (environment : Environment)
    (announced : Option PositionEncoding) : PositionEncoding → Prop
  | given {encoding : PositionEncoding} (flag : options.positionEncoding = some encoding) :
      UsesEncoding options environment announced encoding
  | set {value : String} {encoding : PositionEncoding} (noFlag : options.positionEncoding = none)
      (there : environment "LSP_HIGHLIGHT_POSITION_ENCODING" = some value)
      (valid : encoding.IsNamed value) : UsesEncoding options environment announced encoding
  | announced {encoding : PositionEncoding} (noFlag : options.positionEncoding = none)
      (unset : ∀ value, environment "LSP_HIGHLIGHT_POSITION_ENCODING" = some value →
        ∀ other : PositionEncoding, ¬ other.IsNamed value)
      (told : announced = some encoding) : UsesEncoding options environment announced encoding
  | default (noFlag : options.positionEncoding = none)
      (unset : ∀ value, environment "LSP_HIGHLIGHT_POSITION_ENCODING" = some value →
        ∀ other : PositionEncoding, ¬ other.IsNamed value)
      (untold : announced = none) : UsesEncoding options environment announced .utf16

/-- Whether a run is to read lexemes from a file: there is one, and the source file is in a language
with a lexer. -/
structure ReadsLexemes (options : Options) (path : String) (language : Language) : Prop where
  given : options.compilerTokens = some path
  lexer : options.HasLexer language

/-- Whether lexemes are those of a run. -/
inductive UsesLexemes (files : Files) (options : Options) : List Lexeme → Prop
  | read {path : String} {language : Language} {lexemes : List Lexeme}
      (used : options.ReadsLexemes path language)
      (holds : HoldsJson files path (Json.IsList Lexeme.IsGivenBy) lexemes) :
      UsesLexemes files options lexemes
  | none (unused : ∀ path language, ¬ options.ReadsLexemes path language) :
      UsesLexemes files options []

theorem usesStem_iff {stem : String} :
    options.UsesStem environment stem ↔
      (match options.classPrefix with
        | some value => Settings.stem? value
        | none => some (((environment "LSP_HIGHLIGHT_CLASS_PREFIX").bind Settings.stem?).getD
            "lsp")) = some stem := by
  constructor
  · intro uses
    cases uses with
    | given flag valid => simp only [flag, Settings.stem?_eq_some_iff.mpr valid]
    | set noFlag there valid =>
        simp only [noFlag, there, Option.bind_some, Settings.stem?_eq_some_iff.mpr valid,
          Option.getD_some]
    | default noFlag unset =>
        simp only [noFlag, Settings.bind_stem?_eq_none_iff.mpr unset, Option.getD_none]
  · intro settled
    cases flag : options.classPrefix with
    | some value =>
        rw [flag] at settled
        exact .given flag (Settings.stem?_eq_some_iff.mp settled)
    | none =>
        rw [flag] at settled
        cases settled
        cases found : (environment "LSP_HIGHLIGHT_CLASS_PREFIX").bind Settings.stem? with
        | some stem =>
            obtain ⟨value, there, valid⟩ := Option.bind_eq_some_iff.mp found
            exact .set flag there (Settings.stem?_eq_some_iff.mp valid)
        | none => exact .default flag (Settings.bind_stem?_eq_none_iff.mp found)

theorem usesEncoding_iff {announced : Option PositionEncoding} {encoding : PositionEncoding} :
    options.UsesEncoding environment announced encoding ↔
      ((options.positionEncoding.or ((environment "LSP_HIGHLIGHT_POSITION_ENCODING").bind
        PositionEncoding.parse?)).or announced).getD .utf16 = encoding := by
  constructor
  · intro uses
    cases uses with
    | given flag => simp [flag]
    | set noFlag there valid => simp [noFlag, there, PositionEncoding.parse?_eq_some_iff.mpr valid]
    | announced noFlag unset told =>
        simp [noFlag, PositionEncoding.bind_parse?_eq_none_iff.mpr unset, told]
    | default noFlag unset untold =>
        simp [noFlag, PositionEncoding.bind_parse?_eq_none_iff.mpr unset, untold]
  · rintro rfl
    cases flag : options.positionEncoding with
    | some encoding => exact .given flag
    | none =>
        cases found : (environment "LSP_HIGHLIGHT_POSITION_ENCODING").bind
            PositionEncoding.parse? with
        | some encoding =>
            obtain ⟨value, there, valid⟩ := Option.bind_eq_some_iff.mp found
            exact .set flag there (PositionEncoding.parse?_eq_some_iff.mp valid)
        | none =>
            have unset := PositionEncoding.bind_parse?_eq_none_iff.mp found
            cases told : announced with
            | some encoding => exact .announced flag unset rfl
            | none => exact .default flag unset rfl

theorem UsesStem.unique {stem other : String} (first : options.UsesStem environment stem)
    (second : options.UsesStem environment other) : stem = other :=
  Option.some.inj ((usesStem_iff.mp first).symm.trans (usesStem_iff.mp second))

theorem UsesEncoding.unique {announced : Option PositionEncoding}
    {encoding other : PositionEncoding}
    (first : options.UsesEncoding environment announced encoding)
    (second : options.UsesEncoding environment announced other) : encoding = other :=
  (usesEncoding_iff.mp first).symm.trans (usesEncoding_iff.mp second)

theorem UsesLexemes.holds {lexemes : List Lexeme} {path : String} {language : Language}
    (uses : options.UsesLexemes files lexemes) (used : options.ReadsLexemes path language) :
    HoldsJson files path (Json.IsList Lexeme.IsGivenBy) lexemes := by
  cases uses with
  | read used' holds =>
      obtain rfl : path = _ := Option.some.inj (used.given.symm.trans used'.given)
      exact holds
  | none unused => exact absurd used (unused path language)

theorem UsesLexemes.unique {lexemes other : List Lexeme}
    (first : options.UsesLexemes files lexemes) (second : options.UsesLexemes files other) :
    lexemes = other := by
  cases first with
  | read used holds => exact holds.unique Lexeme.reads.list (second.holds used)
  | none unused =>
      cases second with
      | read used _ => exact absurd used (unused _ _)
      | none _ => rfl

end Options

/-- What a run has in hand when all steps up to the highlighting went well. -/
structure Intake where
  stem : String
  text : Text
  payload : Payload
  encoding : PositionEncoding
  lexemes : List Lexeme

namespace Intake

/-- An intake holds what the files, the environment and the options say. -/
structure IsRead (files : Files) (environment : Environment) (options : Options)
    (intake : Intake) : Prop where
  stem : options.UsesStem environment intake.stem
  text : HoldsText files options.file intake.text
  payload : HoldsJson files options.semanticTokens Payload.IsGivenBy intake.payload
  encoding : options.UsesEncoding environment intake.payload.encoding intake.encoding
  lexemes : options.UsesLexemes files intake.lexemes

/-- The markup of what was read, with nothing left open. The language has had its say with the
lexemes, all of which are to be used. -/
def markup (intake : Intake) : Except Fault Text :=
  Request.markup
    { text := intake.text
      stream := intake.payload.data
      legend := .ofAnnouncement intake.payload.legend
      lexemes := intake.lexemes }
    { encoding := some intake.encoding, stem := intake.stem }

theorem IsRead.unique {one other : Intake} (first : one.IsRead files environment options)
    (second : other.IsRead files environment options) : one = other := by
  have stem := first.stem.unique second.stem
  have text := first.text.unique second.text
  have payload := first.payload.unique Payload.reads second.payload
  have encoding := first.encoding.unique (payload ▸ second.encoding)
  have lexemes := first.lexemes.unique second.lexemes
  cases one
  cases other
  simp_all only

end Intake

end CommandLine

end TokenMarkup
