import TokenMarkup.CommandLine.Run
import TokenMarkup.Proofs.Fidelity

/-!
# The language of a source file

The language of a run is the one that was named, else that of the extension of the source file.
What an extension is, is said of the characters of a path (`Path.HasExtension`), and found by
cutting the path at its slashes (`Path.extension?_eq_some_iff`). Which languages have a lexer is
listed here once more, by identifier and by extension: `Options.hasLexer_iff` says that the
language which a run settles on has a lexer if and only if its identifier or its extension is on
these lists.
-/

namespace TokenMarkup

namespace Text

theorem split_append_cons (separator : Char) (front rest : Text) :
    split separator (front ++ separator :: rest) =
      split separator front ++ split separator rest := by
  induction front with
  | nil => simp [consPart]
  | cons c front ih =>
      obtain ⟨part, parts, parted⟩ := List.exists_cons_of_ne_nil (split_ne_nil separator front)
      rw [List.cons_append, split_cons, split_cons, ih, parted]
      unfold consPart
      split <;> simp

theorem split_of_not_mem {separator : Char} {text : Text} (free : separator ∉ text) :
    split separator text = [text] := by
  induction text with
  | nil => rfl
  | cons c rest ih =>
      rw [List.mem_cons, not_or] at free
      rw [split_cons, ih free.2, consPart, if_neg (Ne.symm free.1)]

end Text

namespace Path

/-! ## Extensions -/

/-- Whether a path leads to a file with an extension. In front of the name there may be directories,
and behind it slashes, with dots that stand alone between them. The name has a part in front of its
last dot, and the extension is what follows that dot. -/
inductive HasExtension : Text → Text → Prop
  | intro {directories stem extension : Text} {behind : List Text}
      (separated : directories = [] ∨ ['/'] <:+ directories)
      (named : stem ≠ [] ∧ '/' ∉ stem ++ '.' :: extension)
      (last : '.' ∉ extension) (not_up : stem ++ '.' :: extension ≠ ['.', '.'])
      (still : ∀ name ∈ behind, name = [] ∨ name = ['.']) :
      HasExtension (directories ++ (stem ++ '.' :: extension) ++ behind.flatMap ('/' :: ·))
        extension

theorem staysThere_iff {name : Text} : staysThere name = true ↔ name = [] ∨ name = ['.'] := by
  simp [staysThere]

/-- Behind the last name of a path there are only names that stay there. -/
theorem getLast?_names_eq_some_iff {path : String} {name : Text} :
    (names path).getLast? = some name ↔
      ∃ front behind, components path = front ++ name :: behind ∧ ¬ staysThere name ∧
        ∀ other ∈ behind, staysThere other := by
  rw [names, List.getLast?_eq_head?_reverse, ← List.filter_reverse, List.head?_filter,
    List.find?_eq_some_iff_append]
  constructor
  · rintro ⟨moves, behind, front, cut, still⟩
    refine ⟨front.reverse, behind.reverse, ?_, by simpa using moves, by simpa using still⟩
    rw [← List.reverse_inj, cut]
    simp
  · rintro ⟨front, behind, cut, moves, still⟩
    refine ⟨by simpa using moves, behind.reverse, front.reverse, ?_, by simpa using still⟩
    rw [cut]
    simp

theorem extensionOf?_eq_some_iff {name extension : Text} :
    extensionOf? name = some extension ↔
      ∃ stem, name = stem ++ '.' :: extension ∧ stem ≠ [] ∧ '.' ∉ extension := by
  unfold extensionOf?
  dsimp only
  constructor
  · intro found
    have whole : name.reverse.takeWhile (· != '.') ++ name.reverse.dropWhile (· != '.') =
        name.reverse := List.takeWhile_append_dropWhile
    have dotless : '.' ∉ name.reverse.takeWhile (· != '.') := fun member => by
      simpa using List.all_eq_true.mp List.all_takeWhile _ member
    have dotted := List.head?_dropWhile_not (· != '.') name.reverse
    split at found
    · next dot c front cut =>
        simp only [Option.some.injEq] at found
        rw [cut] at whole dotted
        obtain rfl : dot = '.' := by simpa using dotted
        refine ⟨(c :: front).reverse, ?_, by simp, by simpa [← found] using dotless⟩
        rw [← List.reverse_inj, ← whole, ← found]
        simp
    · cases found
  · rintro ⟨stem, rfl, someStem, last⟩
    have beyond : ∀ c ∈ extension.reverse, (c != '.') = true := by
      intro c member
      have differs : c ≠ '.' := fun same => last (same ▸ List.mem_reverse.mp member)
      simpa using differs
    obtain ⟨c, front, turned⟩ := List.exists_cons_of_ne_nil (List.reverse_ne_nil_iff.mpr someStem)
    rw [List.reverse_append, List.reverse_cons, List.append_assoc, turned,
      List.dropWhile_append_of_pos beyond, List.takeWhile_append_of_pos beyond]
    simp

/-- The components of a path in front of a name, each with the slash behind it, and the name. -/
theorem intercalate_components (front behind : List Text) (name : Text) :
    ['/'].intercalate (front ++ name :: behind) =
      front.flatMap (· ++ ['/']) ++ name ++ behind.flatMap ('/' :: ·) := by
  induction front with
  | nil =>
      induction behind generalizing name with
      | nil => simp
      | cons next behind ih => simpa [List.intercalate_cons_cons] using ih next
  | cons first front ih =>
      cases front with
      | nil => simpa [List.intercalate_cons_cons] using ih
      | cons next front => simpa [List.intercalate_cons_cons] using ih

theorem split_flatMap {behind : List Text} (still : ∀ name ∈ behind, name = [] ∨ name = ['.'])
    (name : Text) (free : '/' ∉ name) :
    Text.split '/' (name ++ behind.flatMap ('/' :: ·)) = name :: behind := by
  induction behind generalizing name with
  | nil => simpa using Text.split_of_not_mem free
  | cons next behind ih =>
      obtain ⟨first, others⟩ := List.forall_mem_cons.mp still
      have free' : '/' ∉ next := by
        rcases first with rfl | rfl <;> decide
      rw [List.flatMap_cons, List.cons_append, Text.split_append_cons, ih others next free',
        Text.split_of_not_mem free]
      rfl

theorem extension?_eq_some_iff {path : String} {extension : Text} :
    extension? path = some extension ↔ HasExtension path.toList extension := by
  unfold extension? fileName?
  simp only [Option.bind_eq_some_iff, Option.filter_eq_some_iff, getLast?_names_eq_some_iff,
    extensionOf?_eq_some_iff]
  constructor
  · rintro ⟨name, ⟨⟨front, behind, cut, moves, still⟩, notUp⟩, stem, rfl, someStem, last⟩
    have whole : path.toList = ['/'].intercalate (components path) :=
      (Text.intercalate_split '/' path.toList).symm
    have slashless := Text.not_mem_of_mem_split '/' path.toList (stem ++ '.' :: extension)
      (show _ ∈ components path by simp [cut])
    rw [whole, cut, intercalate_components]
    refine .intro ?_ ⟨someStem, slashless⟩ last (by simpa [goesUp] using notUp)
      (fun name member => staysThere_iff.mp (still name member))
    rcases List.eq_nil_or_concat front with rfl | ⟨others, directory, rfl⟩
    · exact .inl rfl
    · exact .inr ⟨others.flatMap (· ++ ['/']) ++ directory, by simp⟩
  · intro ends
    unfold components
    generalize path.toList = text at ends
    cases ends with
    | @intro directories stem _ behind separated named last notUp still =>
        obtain ⟨someStem, slashless⟩ := named
        have ending := split_flatMap still _ slashless
        have cut : ∃ front, Text.split '/' (directories ++ (stem ++ '.' :: extension) ++
            behind.flatMap ('/' :: ·)) = front ++ (stem ++ '.' :: extension) :: behind := by
          obtain rfl | ⟨above, rfl⟩ := separated
          · exact ⟨[], ending⟩
          · refine ⟨Text.split '/' above, ?_⟩
            rw [← ending, ← Text.split_append_cons]
            simp
        obtain ⟨front, cut⟩ := cut
        have moves : ¬ staysThere (stem ++ '.' :: extension) := by
          rw [staysThere_iff]
          cases stem <;> simp at someStem ⊢
        have still' : ∀ name ∈ behind, staysThere name :=
          fun name member => staysThere_iff.mpr (still name member)
        exact ⟨_, ⟨⟨front, behind, cut, moves, still'⟩, by simpa [goesUp] using notUp⟩,
          stem, rfl, someStem, last⟩

end Path

/-! ## Languages -/

namespace Language

/-- The languages that have a lexer, by identifier. -/
def lexersById : List (String × Language) :=
  [("c", c), ("cpp", cpp), ("objective-c", objectiveC), ("objective-cpp", objectiveCpp)]

/-- The languages that have a lexer, by the extensions of their files in lower case. -/
def lexersByExtension : List (String × Language) :=
  [("c", c), ("h", c), ("cpp", cpp), ("cc", cpp), ("cxx", cpp), ("hpp", cpp), ("m", objectiveC),
    ("mm", objectiveCpp)]

theorem mem_lexersById_iff {id : String} {language : Language} :
    (id, language) ∈ lexersById ↔ ofId id = language ∧ language.hasLexer := by
  constructor
  · intro listed
    simp only [lexersById, List.mem_cons, Prod.mk.injEq, List.not_mem_nil, or_false] at listed
    rcases listed with ⟨rfl, rfl⟩ | ⟨rfl, rfl⟩ | ⟨rfl, rfl⟩ | ⟨rfl, rfl⟩ <;> exact ⟨rfl, rfl⟩
  · rintro ⟨rfl, lexer⟩
    unfold ofId at lexer ⊢
    split at lexer <;> simp_all [lexersById, hasLexer]

theorem mem_lexersByExtension_iff {extension : Text} {language : Language} :
    (String.ofList (extension.map Char.toLower), language) ∈ lexersByExtension ↔
      ofExtension? extension = some language ∧ language.hasLexer := by
  unfold ofExtension? Text.lowercase
  generalize String.ofList (extension.map Char.toLower) = lower
  constructor
  · intro listed
    simp only [lexersByExtension, List.mem_cons, Prod.mk.injEq, List.not_mem_nil,
      or_false] at listed
    rcases listed with ⟨rfl, rfl⟩ | ⟨rfl, rfl⟩ | ⟨rfl, rfl⟩ | ⟨rfl, rfl⟩ | ⟨rfl, rfl⟩ |
      ⟨rfl, rfl⟩ | ⟨rfl, rfl⟩ | ⟨rfl, rfl⟩ <;> exact ⟨rfl, rfl⟩
  · rintro ⟨found, lexer⟩
    split at found <;> cases found <;> simp_all [lexersByExtension, hasLexer]

end Language

namespace CommandLine.Options

variable {options : Options} {language : Language}

/-- The language of the source file: the one that was named, else that of the file's extension. -/
inductive IsLanguage (options : Options) : Language → Prop
  | named {id : String} (given : options.language = some id) : IsLanguage options (.ofId id)
  | found {extension : Text} {language : Language} (unnamed : options.language = none)
      (ends : Path.HasExtension options.file.toList extension)
      (listed : Language.ofExtension? extension = some language) : IsLanguage options language

/-- Whether the source file is in a language with a lexer. -/
inductive HasLexer (options : Options) (language : Language) : Prop
  | named {id : String} (given : options.language = some id)
      (listed : (id, language) ∈ Language.lexersById)
  | found {extension : Text} (unnamed : options.language = none)
      (ends : Path.HasExtension options.file.toList extension)
      (listed : (String.ofList (extension.map Char.toLower), language) ∈
        Language.lexersByExtension)

theorem sourceLanguage_eq_some_iff :
    options.sourceLanguage = some language ↔ options.IsLanguage language := by
  unfold sourceLanguage
  cases given : options.language with
  | some id =>
      constructor
      · rintro ⟨⟩
        exact .named given
      · rintro (⟨again⟩ | ⟨unnamed, -, -⟩)
        · cases given.symm.trans again
          rfl
        · cases given.symm.trans unnamed
  | none =>
      show (Path.extension? options.file).bind Language.ofExtension? = some language ↔ _
      simp only [Option.bind_eq_some_iff, Path.extension?_eq_some_iff]
      constructor
      · rintro ⟨extension, ends, listed⟩
        exact .found given ends listed
      · rintro (⟨again⟩ | ⟨-, ends, listed⟩)
        · cases given.symm.trans again
        · exact ⟨_, ends, listed⟩

theorem hasLexer_iff :
    options.HasLexer language ↔ options.sourceLanguage = some language ∧ language.hasLexer := by
  rw [sourceLanguage_eq_some_iff]
  constructor
  · rintro (⟨given, listed⟩ | ⟨unnamed, ends, listed⟩)
    · obtain ⟨rfl, lexer⟩ := Language.mem_lexersById_iff.mp listed
      exact ⟨.named given, lexer⟩
    · obtain ⟨listed, lexer⟩ := Language.mem_lexersByExtension_iff.mp listed
      exact ⟨.found unnamed ends listed, lexer⟩
  · rintro ⟨⟨given⟩ | ⟨unnamed, ends, listed⟩, lexer⟩
    · exact .named given (Language.mem_lexersById_iff.mpr ⟨rfl, lexer⟩)
    · exact .found unnamed ends (Language.mem_lexersByExtension_iff.mpr ⟨listed, lexer⟩)

end CommandLine.Options

end TokenMarkup
