import TokenMarkup.Proofs.RunIntake

/-!
# A run of the command line is all or nothing

What a run reads may be of no use, and highlighting it may fail. `Fails` lists the ways in which a
step can fail, whatever the other steps do; when none of them does, the run has its whole intake in
hand and markup for it. A run with a failing step prints nothing and leaves the world as it was; any
other run delivers the markup of its intake, whole.

The host is arbitrary: any files, any variables, and any way of writing a file. The file of lexemes
is only one of the steps when the language of the source file has a lexer. For any other language
what is in that file, or whether it is there, makes no difference.
-/

namespace TokenMarkup

/-- The announced encoding counts for nothing beyond the encoding that the settings resolve to. -/
theorem Request.markup_resolved (request : Request) (settings : Settings) :
    { request with announced := none }.markup
        { settings with encoding := some (settings.resolve request.announced) } =
      request.markup settings :=
  rfl

/-- The language counts for nothing beyond whether lexemes are used. -/
theorem Request.markup_of_usesLexemes (request : Request) {language : Option Language}
    (same : { request with language }.usesLexemes = request.usesLexemes) (settings : Settings) :
    { request with language }.markup settings = request.markup settings := by
  simp only [markup, spans, tokens, overlay, lexical, same]
  rfl

/-- Lexemes count for nothing in a language that is known to have no lexer. -/
theorem Request.markup_of_not_hasLexer {request : Request} {language : Language}
    (known : request.language = some language) (gated : language.hasLexer = false)
    (lexemes : List Lexeme) (settings : Settings) :
    { request with lexemes }.markup settings = { request with lexemes := [] }.markup settings := by
  have unused (lexemes : List Lexeme) : { request with lexemes }.usesLexemes = false := by
    simp [usesLexemes, known, gated]
  simp only [markup, spans, tokens, overlay, lexical, unused]
  rfl

namespace CommandLine

variable {files : Files} {environment : Environment} {options : Options} {failure : Failure}
  {html : Text}

/-- The ways in which a step of a run fails, each by itself. -/
inductive Fails (files : Files) (environment : Environment) (options : Options) : Failure → Prop
  | stem {value : String} (given : options.classPrefix = some value)
      (invalid : ∀ stem, ¬ Settings.IsStem value stem) :
      Fails files environment options (.invalidStem value)
  | source {cause : ReadFault} (unreadable : Unreadable files options.file cause) :
      Fails files environment options (.unreadableSource options.file cause)
  | payloadFile {cause : ReadFault} (unreadable : Unreadable files options.semanticTokens cause) :
      Fails files environment options (.payload (.unreadable options.semanticTokens cause))
  | payloadText {text : Text} {cause : Json.Rejection}
      (readable : HoldsText files options.semanticTokens text)
      (invalid : ∀ payload, ¬ Json.IsToldBy Payload.IsGivenBy payload text) :
      Fails files environment options (.payload (.invalid options.semanticTokens cause))
  | lexemeFile {path : String} {language : Language} {cause : ReadFault}
      (used : options.ReadsLexemes path language) (unreadable : Unreadable files path cause) :
      Fails files environment options (.provider ⟨.jsonFile path, language, .unreadable path cause⟩)
  | lexemeText {path : String} {language : Language} {text : Text}
      (used : options.ReadsLexemes path language) (readable : HoldsText files path text)
      (invalid : ∀ lexemes, ¬ Json.IsToldBy (Json.IsList Lexeme.IsGivenBy) lexemes text) :
      Fails files environment options (.provider ⟨.jsonFile path, language, .malformed path⟩)
  | highlight {intake : Intake} {fault : Fault} (read : intake.IsRead files environment options)
      (failed : intake.markup = .error fault) :
      Fails files environment options (.highlight options.file fault)

/-! ## Each step by itself -/

/-- A step ends in one of two ways: with a result that is as it should be, or with a failure of a
given kind. -/
def Ends {α : Type} (good : α → Prop) (bad : Failure → Prop) : Except Failure α → Prop
  | .ok value => good value
  | .error failure => bad failure

theorem Ends.bind {α β : Type} {good : α → Prop} {better : β → Prop} {bad : Failure → Prop}
    {step : Except Failure α} {next : α → Except Failure β} (first : Ends good bad step)
    (second : ∀ value, good value → Ends better bad (next value)) :
    Ends better bad (step >>= next) := by
  cases step with
  | ok value => exact second value first
  | error failure => exact first

section Steps

variable (files : Files) (environment : Environment) (options : Options)

theorem settings_ends :
    Ends
      (fun settings => options.UsesStem environment settings.stem ∧
        ∀ announced,
          options.UsesEncoding environment announced (settings.resolve announced))
      (Fails files environment options) (options.settings environment) := by
  unfold Options.settings
  cases given : options.classPrefix with
  | none =>
      have settled : options.UsesStem environment (Settings.ofEnvironment environment).stem := by
        rw [Options.usesStem_iff, given]
        rfl
      exact ⟨settled, fun announced => Options.usesEncoding_iff.mpr rfl⟩
  | some value =>
      cases read : Settings.stem? value with
      | some stem =>
          simp only [read]
          exact ⟨.given given (Settings.stem?_eq_some_iff.mp read),
            fun announced => Options.usesEncoding_iff.mpr rfl⟩
      | none =>
          simp only [read]
          refine Fails.stem given fun stem valid => ?_
          cases read.symm.trans (Settings.stem?_eq_some_iff.mpr valid)

theorem readSource_ends :
    Ends (HoldsText files options.file) (Fails files environment options)
      (readSource files options.file) := by
  unfold readSource
  cases read : readText files options.file with
  | ok text => exact readText_eq_ok_iff.mp read
  | error cause => exact Fails.source (readText_eq_error_iff.mp read)

theorem readPayload_ends :
    Ends (HoldsJson files options.semanticTokens Payload.IsGivenBy)
      (Fails files environment options) (readPayload files options.semanticTokens) := by
  unfold readPayload
  cases read : readText files options.semanticTokens with
  | error cause => exact Fails.payloadFile (readText_eq_error_iff.mp read)
  | ok text =>
      have holds := readText_eq_ok_iff.mp read
      cases parsed : Payload.parse text with
      | ok payload =>
          simp only [parsed]
          exact ⟨text, holds, Payload.parse_eq_ok_iff.mp parsed⟩
      | error cause =>
          simp only [parsed]
          refine Fails.payloadText holds fun payload told => ?_
          cases parsed.symm.trans (Payload.parse_eq_ok_iff.mpr told)

variable {files environment options}

/-- When there is a file of lexemes to read, it is the provider of the source file's language. -/
theorem readLexemes_of_reads {path : String} {language : Language}
    (used : options.ReadsLexemes path language) :
    readLexemes files options =
      ((Provider.jsonFile path).lexemes files).mapError
        fun cause => .provider ⟨.jsonFile path, language, cause⟩ := by
  obtain ⟨known, lexer⟩ := Options.hasLexer_iff.mp used.lexer
  have provided : options.registry.provider? language = some (.jsonFile path) := by
    simp [Options.registry, used.given, known, lexer, Registry.provider?, Registry.register]
  simp only [readLexemes, known, Registry.lexemes, provided]
  cases (Provider.jsonFile path).lexemes files <;> rfl

theorem readLexemes_of_unused (unused : ∀ path language, ¬ options.ReadsLexemes path language) :
    readLexemes files options = .ok [] := by
  unfold readLexemes
  cases known : options.sourceLanguage with
  | none => rfl
  | some language =>
      have empty : options.registry = .empty := by
        unfold Options.registry
        cases given : options.compilerTokens with
        | none => rfl
        | some path =>
            have gated : ¬ language.hasLexer := fun lexer =>
              unused path language ⟨given, Options.hasLexer_iff.mpr ⟨known, lexer⟩⟩
            simp only [known]
            exact if_neg gated
      simp only [empty]
      rfl

variable (files environment options)

theorem readLexemes_ends :
    Ends (options.UsesLexemes files) (Fails files environment options)
      (readLexemes files options) := by
  by_cases use : ∃ path language, options.ReadsLexemes path language
  · obtain ⟨path, language, used⟩ := use
    rw [readLexemes_of_reads used]
    simp only [Provider.lexemes]
    cases read : readText files path with
    | error cause => exact Fails.lexemeFile used (readText_eq_error_iff.mp read)
    | ok text =>
        have holds := readText_eq_ok_iff.mp read
        cases parsed : Lexemes.parse text with
        | ok lexemes =>
            simp only [parsed]
            exact Options.UsesLexemes.read used ⟨text, holds, Lexemes.parse_eq_ok_iff.mp parsed⟩
        | error cause =>
            simp only [parsed]
            refine Fails.lexemeText used holds fun lexemes told => ?_
            cases parsed.symm.trans (Lexemes.parse_eq_ok_iff.mpr told)
  · have unused : ∀ path language, ¬ options.ReadsLexemes path language :=
      fun path language used => use ⟨path, language, used⟩
    rw [readLexemes_of_unused unused]
    exact Options.UsesLexemes.none unused

end Steps

/-! ## The steps together -/

/-- The markup of an intake, as a run comes to it from the settings and the payload. -/
theorem Intake.markup_eq {intake : Intake} (uses : options.UsesLexemes files intake.lexemes)
    {settings : Settings} (stem : settings.stem = intake.stem)
    (resolved : settings.resolve intake.payload.encoding = intake.encoding) :
    intake.markup =
      Request.markup
        { text := intake.text
          stream := intake.payload.data
          legend := intake.payload.tokenLegend
          announced := intake.payload.encoding
          lexemes := intake.lexemes
          language := options.sourceLanguage } settings := by
  let request : Request :=
    { text := intake.text
      stream := intake.payload.data
      legend := intake.payload.tokenLegend
      announced := intake.payload.encoding
      lexemes := intake.lexemes }
  have same : { request with language := options.sourceLanguage }.usesLexemes =
      request.usesLexemes := by
    simp only [Request.usesLexemes, request]
    generalize intake.lexemes = lexemes at uses
    cases uses with
    | read used _ =>
        obtain ⟨known, lexer⟩ := Options.hasLexer_iff.mp used.lexer
        simp [known, lexer]
    | none _ => simp
  calc intake.markup
      = { request with announced := none }.markup
          { settings with encoding := some (settings.resolve request.announced) } := by
        simp only [Intake.markup, request, resolved, stem, Payload.tokenLegend_eq]
    _ = request.markup settings := Request.markup_resolved request settings
    _ = _ := (Request.markup_of_usesLexemes request same settings).symm

theorem Intake.IsRead.ends {intake : Intake} (isRead : intake.IsRead files environment options) :
    Ends
      (fun html => ∃ intake : Intake, intake.IsRead files environment options ∧
        intake.markup = .ok html)
      (Fails files environment options)
      (intake.markup.mapError (.highlight options.file)) := by
  cases made : intake.markup with
  | ok html => exact ⟨intake, isRead, made⟩
  | error fault => exact Fails.highlight isRead made

/-- Either all steps go well and there is the markup of the intake, or some step fails, and it is
the failure of such a step that is reported. -/
theorem markup_ends (files : Files) (environment : Environment) (options : Options) :
    Ends
      (fun html => ∃ intake : Intake, intake.IsRead files environment options ∧
        intake.markup = .ok html)
      (Fails files environment options) (markup files environment options) := by
  refine (settings_ends files environment options).bind fun settings set => ?_
  refine (readSource_ends files environment options).bind fun text source => ?_
  refine (readPayload_ends files environment options).bind fun payload given => ?_
  refine (readLexemes_ends files environment options).bind fun lexemes uses => ?_
  let intake : Intake :=
    { stem := settings.stem, text, payload, encoding := settings.resolve payload.encoding, lexemes }
  have isRead : intake.IsRead files environment options :=
    ⟨set.1, source, given, set.2 payload.encoding, uses⟩
  have last := isRead.ends
  rw [Intake.markup_eq uses rfl rfl] at last
  exact last

/-- When a run has markup, no step fails. -/
theorem not_fails {intake : Intake} (isRead : intake.IsRead files environment options)
    (made : intake.markup = .ok html) : ¬ Fails files environment options failure := by
  intro fails
  cases fails with
  | stem given invalid =>
      have uses := isRead.stem
      generalize intake.stem = stem at uses
      cases uses with
      | given flag valid =>
          cases given.symm.trans flag
          exact invalid _ valid
      | set noFlag _ _ => cases given.symm.trans noFlag
      | default noFlag _ => cases given.symm.trans noFlag
  | source unreadable => exact isRead.text.not_unreadable unreadable
  | payloadFile unreadable => exact isRead.payload.not_unreadable unreadable
  | payloadText readable invalid => exact invalid _ (isRead.payload.isToldBy readable)
  | lexemeFile used unreadable => exact (isRead.lexemes.holds used).not_unreadable unreadable
  | lexemeText used readable invalid =>
      exact invalid _ ((isRead.lexemes.holds used).isToldBy readable)
  | highlight isRead' failed =>
      rw [isRead'.unique isRead] at failed
      cases made.symm.trans failed

/-! ## What a run leaves behind -/

variable {Disk : Type} {host : Host Disk} {world : World Disk} {logged : Bool}

/-- Nothing was printed, and nothing in the world has changed. -/
structure Outcome.IsNothing (world : World Disk) (outcome : Outcome Disk) : Prop where
  exitCode : outcome.exitCode = 1
  stdout : outcome.stdout = []
  world : outcome.world = world

/-- The markup went out whole: it was printed, or it was handed to the host to be written to the
output file, and in the world nothing has changed but what the host did about that. -/
inductive Outcome.IsDelivery (host : Host Disk) (world : World Disk) (html : Text) :
    Option String → Outcome Disk → Prop
  | printed {outcome : Outcome Disk} (exitCode : outcome.exitCode = 0)
      (stdout : outcome.stdout = html) (same : outcome.world = world) :
      IsDelivery host world html none outcome
  | written {path : String} {disk : Disk} {outcome : Outcome Disk}
      (taken : host.write world.disk path html = (true, disk)) (exitCode : outcome.exitCode = 0)
      (stdout : outcome.stdout = []) (rest : outcome.world = { world with disk }) :
      IsDelivery host world html (some path) outcome
  | refused {path : String} {disk : Disk} {outcome : Outcome Disk}
      (refusal : host.write world.disk path html = (false, disk)) (exitCode : outcome.exitCode = 1)
      (stdout : outcome.stdout = []) (said : outcome.failure = some ("Failed to write " ++ path))
      (rest : outcome.world = { world with disk }) :
      IsDelivery host world html (some path) outcome

theorem highlightFile_of_error
    (failed : markup (host.files world.disk) host.environment options = .error failure) :
    highlightFile host world logged options = report world logged failure := by
  simp only [highlightFile, failed]

theorem highlightFile_of_ok
    (made : markup (host.files world.disk) host.environment options = .ok html) :
    highlightFile host world logged options = deliver host world logged html options.output := by
  simp only [highlightFile, made]

theorem deliver_some (host : Host Disk) (world : World Disk) (logged : Bool) (html : Text)
    (path : String) :
    deliver host world logged html (some path) =
      { exitCode := if (host.write world.disk path html).1 then 0 else 1
        failure :=
          if (host.write world.disk path html).1 then none else some ("Failed to write " ++ path)
        logged
        world := { world with disk := (host.write world.disk path html).2 } } := by
  simp only [deliver]
  rcases host.write world.disk path html with ⟨_ | _, disk⟩ <;> rfl

theorem deliver_isDelivery (host : Host Disk) (world : World Disk) (logged : Bool) (html : Text)
    (output : Option String) :
    (deliver host world logged html output).IsDelivery host world html output := by
  cases output with
  | none => exact .printed rfl rfl rfl
  | some path =>
      rw [deliver_some]
      cases answer : host.write world.disk path html with
      | mk taken disk =>
          cases taken with
          | true => exact .written answer rfl rfl rfl
          | false => exact .refused answer rfl rfl rfl rfl

/-! ## Languages without a lexer -/

theorem unused_of_not_hasLexer (gated : ∀ language, ¬ options.HasLexer language) :
    ∀ path language, ¬ options.ReadsLexemes path language :=
  fun _ language used => gated language used.lexer

theorem markup_congr {files' : Files} (gated : ∀ language, ¬ options.HasLexer language)
    (source : files' options.file = files options.file)
    (payload : files' options.semanticTokens = files options.semanticTokens) :
    markup files' environment options = markup files environment options := by
  have unused := unused_of_not_hasLexer gated
  simp only [markup, readSource, readPayload, readText, source, payload,
    readLexemes_of_unused unused]

theorem markup_compilerTokens (gated : ∀ language, ¬ options.HasLexer language)
    (compilerTokens : Option String) :
    markup files environment { options with compilerTokens } =
      markup files environment options := by
  have still (language : Language) : ¬ { options with compilerTokens }.HasLexer language := by
    rw [Options.hasLexer_iff]
    exact fun found => gated language (Options.hasLexer_iff.mpr found)
  simp only [markup, readLexemes_of_unused (unused_of_not_hasLexer gated),
    readLexemes_of_unused (unused_of_not_hasLexer still)]
  rfl

/-- A host takes or refuses a text for the output file alike on two disks. -/
def Host.AnswersAlike (host : Host Disk) (output : Option String) (disk disk' : Disk) : Prop :=
  ∀ path html, output = some path →
    (host.write disk path html).1 = (host.write disk' path html).1

/-- Two runs, each with a disk of its own, that are alike in all that can be seen of them. They
print the same, and either touch no file or hand the same text over for the output file. If the host
answers that alike, they also end alike. -/
structure Outcome.Alike (host : Host Disk) (output : Option String) (disk disk' : Disk)
    (one other : Outcome Disk) : Prop where
  stdout : one.stdout = other.stdout
  disks : one.world.disk = disk ∧ other.world.disk = disk' ∨
    ∃ path html, output = some path ∧
      one.world.disk = (host.write disk path html).2 ∧
      other.world.disk = (host.write disk' path html).2
  said : host.AnswersAlike output disk disk' →
    one.exitCode = other.exitCode ∧ one.failure = other.failure

theorem deliver_alike (host : Host Disk) (world : World Disk) (logged : Bool) (html : Text)
    (output : Option String) (disk : Disk) :
    (deliver host world logged html output).Alike host output world.disk disk
      (deliver host { world with disk } logged html output) := by
  cases output with
  | none => exact ⟨rfl, .inl ⟨rfl, rfl⟩, fun _ => ⟨rfl, rfl⟩⟩
  | some path =>
      rw [deliver_some, deliver_some]
      refine ⟨rfl, .inr ⟨path, html, rfl, rfl, rfl⟩, fun answers => ?_⟩
      simp only [answers path html rfl]
      exact ⟨trivial, trivial⟩

/-- A run does not look at the file of lexemes: not at what the options call it, not at what is in
it, and not at whether it is there. -/
structure IgnoresLexemes (host : Host Disk) (world : World Disk) (logged : Bool)
    (options : Options) : Prop where
  option : ∀ compilerTokens,
    highlightFile host world logged { options with compilerTokens } =
      highlightFile host world logged options
  /-- All files but the source file and the payload may be others, or missing. -/
  content : ∀ disk,
    host.files disk options.file = host.files world.disk options.file →
    host.files disk options.semanticTokens = host.files world.disk options.semanticTokens →
    (highlightFile host world logged options).Alike host options.output world.disk disk
      (highlightFile host { world with disk } logged options)
  /-- Highlighting itself ignores lexemes where the language is known. -/
  request : ∀ language, options.IsLanguage language →
    ∀ (request : Request) (lexemes : List Lexeme) (settings : Settings),
      request.language = some language →
      { request with lexemes }.markup settings = { request with lexemes := [] }.markup settings

theorem ignoresLexemes (gated : ∀ language, ¬ options.HasLexer language) :
    IgnoresLexemes host world logged options where
  option compilerTokens := by
    unfold highlightFile
    rw [markup_compilerTokens gated]
  content disk source payload := by
    have same : markup (host.files disk) host.environment options =
        markup (host.files world.disk) host.environment options :=
      markup_congr gated source payload
    cases made : markup (host.files world.disk) host.environment options with
    | error failure =>
        rw [highlightFile_of_error made, highlightFile_of_error (same.trans made)]
        exact ⟨rfl, .inl ⟨rfl, rfl⟩, fun _ => ⟨rfl, rfl⟩⟩
    | ok html =>
        rw [highlightFile_of_ok made, highlightFile_of_ok (same.trans made)]
        exact deliver_alike host world logged html options.output disk
  request language known request lexemes settings same := by
    have lacks : language.hasLexer = false := by
      have sourced := Options.sourceLanguage_eq_some_iff.mpr known
      simpa [Options.hasLexer_iff, sourced] using gated language
    exact request.markup_of_not_hasLexer same lacks lexemes settings

/-! ## Main result -/

/-- On any host, a run with a failing step leaves nothing behind, and reports the failure of such a
step. A run without one delivers the markup of what it read. Where the language of the source file
is not known or has no lexer, none of this depends on the file of lexemes. -/
theorem highlightFile_all_or_nothing {Disk : Type} (host : Host Disk) (world : World Disk)
    (logged : Bool) (options : Options) :
    ((∃ failure, Fails (host.files world.disk) host.environment options failure) →
      (highlightFile host world logged options).IsNothing world ∧
        ∃ failure, Fails (host.files world.disk) host.environment options failure ∧
          (highlightFile host world logged options).failure = some failure.message) ∧
    ((∀ failure, ¬ Fails (host.files world.disk) host.environment options failure) →
      ∃ (intake : Intake) (html : Text),
        intake.IsRead (host.files world.disk) host.environment options ∧
        intake.markup = .ok html ∧
        (highlightFile host world logged options).IsDelivery host world html options.output) ∧
    ((∀ language, ¬ options.HasLexer language) → IgnoresLexemes host world logged options) := by
  have ends := markup_ends (host.files world.disk) host.environment options
  refine ⟨?_, ?_, ignoresLexemes⟩
  · rintro ⟨failure, failed⟩
    cases made : markup (host.files world.disk) host.environment options with
    | ok html =>
        rw [made] at ends
        obtain ⟨intake, read, highlighted⟩ := ends
        exact absurd failed (not_fails read highlighted)
    | error reported =>
        rw [made] at ends
        rw [highlightFile_of_error made]
        exact ⟨⟨rfl, rfl, rfl⟩, reported, ends, rfl⟩
  · intro sound
    cases made : markup (host.files world.disk) host.environment options with
    | ok html =>
        rw [made] at ends
        obtain ⟨intake, read, highlighted⟩ := ends
        rw [highlightFile_of_ok made]
        exact ⟨intake, html, read, highlighted,
          deliver_isDelivery host world logged html options.output⟩
    | error reported =>
        rw [made] at ends
        exact absurd ends (sound reported)

theorem eq_ok_of_toOption {ε α : Type} {result : Except ε α} {value : α}
    (found : result.toOption = some value) : result = .ok value := by
  cases result with
  | error => cases found
  | ok _ => exact congrArg Except.ok (Option.some.inj found)

/-- A host that keeps the bytes of files by path, the latest first, and takes every text. -/
def plainHost : Host (List (String × ByteArray)) where
  files disk path :=
    match disk.lookup path with
    | some bytes => .ok bytes
    | none => .error "No such file or directory"
  environment _ := none
  write disk path text := (true, (path, (String.ofList text).toUTF8) :: disk)

/-- A disk with a note, a payload without tokens, and some other files. -/
def noteWorld (others : List (String × ByteArray)) : World (List (String × ByteArray)) where
  disk :=
    ("/home/a.md", "x<".toUTF8) :: ("../p.json", "\x7b\"data\":[]\x7d".toUTF8) :: others
  logs := .blocked

/-- Asks for the note to be highlighted, with a file of lexemes that its language has no use for. -/
def noteOptions : Options where
  file := "/home/a.md"
  semanticTokens := "../p.json"
  compilerTokens := some "/tmp/t.json"
  output := some "/tmp/a.html"

/-- The file of lexemes may be missing, or no JSON. The output file is the same, and a stem with a
blank in it still prevents it. -/
theorem highlightFile_all_or_nothing_note :
    (highlightFile plainHost (noteWorld []) false noteOptions).IsDelivery plainHost (noteWorld [])
        "x&lt;".toList (some "/tmp/a.html") ∧
      (highlightFile plainHost (noteWorld []) false noteOptions).Alike plainHost
        (some "/tmp/a.html") (noteWorld []).disk (noteWorld [("/tmp/t.json", "[".toUTF8)]).disk
        (highlightFile plainHost (noteWorld [("/tmp/t.json", "[".toUTF8)]) false noteOptions) ∧
      (highlightFile plainHost (noteWorld []) false
        { noteOptions with classPrefix := some "a b" }).IsNothing (noteWorld []) := by
  have gated (language : Language) : ¬ noteOptions.HasLexer language := by
    have lacks : noteOptions.sourceLanguage.any Language.hasLexer = false := by decide
    rw [Options.hasLexer_iff]
    rintro ⟨known, lexer⟩
    simp [known, lexer] at lacks
  have parsed : Payload.parse "\x7b\"data\":[]\x7d".toList = .ok ⟨none, none, []⟩ := by
    apply eq_ok_of_toOption
    decide +kernel
  let intake : Intake := ⟨"lsp", "x<".toList, ⟨none, none, []⟩, .utf16, []⟩
  have read : intake.IsRead (plainHost.files (noteWorld []).disk) plainHost.environment
      noteOptions :=
    { stem := .default rfl nofun
      text := rfl
      payload := ⟨_, rfl, Payload.parse_eq_ok_iff.mp parsed⟩
      encoding := .default rfl nofun rfl
      lexemes := .none fun _ language used => gated language used.lexer }
  have made : intake.markup = .ok "x&lt;".toList := by
    apply eq_ok_of_toOption
    decide +kernel
  refine ⟨?_, ?_, ?_⟩
  · obtain ⟨intake', html, read', made', delivery⟩ :=
      (highlightFile_all_or_nothing plainHost (noteWorld []) false noteOptions).2.1
        fun _ => not_fails read made
    obtain rfl := read'.unique read
    obtain rfl := Except.ok.inj (made'.symm.trans made)
    exact delivery
  · have ignores :=
      (highlightFile_all_or_nothing plainHost (noteWorld []) false noteOptions).2.2 gated
    exact ignores.content _ rfl rfl
  · have stops := (highlightFile_all_or_nothing plainHost (noteWorld []) false
      { noteOptions with classPrefix := some "a b" }).1
    have invalid : Settings.stem? "a b" = none := by decide
    refine (stops ⟨_, .stem rfl fun stem valid => ?_⟩).1
    cases invalid.symm.trans (Settings.stem?_eq_some_iff.mpr valid)

end CommandLine

end TokenMarkup
