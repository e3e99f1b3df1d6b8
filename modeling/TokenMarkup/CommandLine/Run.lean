import TokenMarkup.CommandLine.Options
import TokenMarkup.Highlight
import TokenMarkup.Payload
import TokenMarkup.Provider
import TokenMarkup.SessionLog

/-!
# Running the command line

`CommandLine.markup` is the whole of the work: from the files, the environment and the options to
the markup, or to the first thing that went wrong. Only when there is markup is anything printed or
written, see `CommandLine.execute`.
-/

namespace TokenMarkup.CommandLine

/-- Why a file of semantic tokens is of no use. -/
inductive PayloadFault where
  | unreadable (path : String) (cause : ReadFault)
  | invalid (path : String) (cause : Json.Rejection)
deriving DecidableEq, Repr

/-- A fault of a file of semantic tokens in words. -/
def PayloadFault.message : PayloadFault → String
  | unreadable path _ => "Failed to read semantic tokens from " ++ path
  | invalid path _ => "Invalid payload in " ++ path ++ ": " ++ Payload.malformedMessage

/-- Why a run failed. -/
inductive Failure where
  | invalidStem (value : String)
  | unreadableSource (path : String) (cause : ReadFault)
  | payload (fault : PayloadFault)
  | provider (fault : ProviderFault)
  | highlight (path : String) (fault : Fault)
  | unwritable (path : String)
deriving DecidableEq, Repr

/-- A failure in words. -/
def Failure.message : Failure → String
  | invalidStem value => "Invalid class prefix '" ++ value ++ "'"
  | unreadableSource path _ => "Failed to read source file " ++ path
  | payload fault => fault.message
  | provider fault => fault.message
  | highlight path fault => "Failed to highlight " ++ path ++ ": " ++ fault.message
  | unwritable path => "Failed to write " ++ path

/-- The variables of an environment. -/
abbrev Environment := String → Option String

namespace Options

/-- The settings of a run: what the options say comes before what the environment says. -/
def settings (options : Options) (environment : Environment) : Except Failure Settings :=
  let given := Settings.ofEnvironment environment
  let encoding := options.positionEncoding.or given.encoding
  match options.classPrefix with
  | none => .ok { given with encoding }
  | some value =>
    match Settings.stem? value with
    | some stem => .ok { encoding, stem }
    | none => .error (.invalidStem value)

/-- The language of the file: the one that was named, else that of the file's extension. -/
def sourceLanguage (options : Options) : Option Language :=
  match options.language with
  | some id => some (.ofId id)
  | none => Language.ofPath? options.file

/-- The providers of a run. The file of lexemes serves the language of the source file, if that is
one with a lexer. -/
def registry (options : Options) : Registry :=
  match options.compilerTokens, options.sourceLanguage with
  | some path, some language =>
    if language.hasLexer then Registry.empty.register language (.jsonFile path) else .empty
  | _, _ => .empty

end Options

/-- Reads the file to highlight. -/
def readSource (files : Files) (path : String) : Except Failure Text :=
  (readText files path).mapError (.unreadableSource path)

/-- Reads the file of semantic tokens. -/
def readPayload (files : Files) (path : String) : Except Failure Payload :=
  match readText files path with
  | .error cause => .error (.payload (.unreadable path cause))
  | .ok text => (Payload.parse text).mapError fun cause => .payload (.invalid path cause)

/-- Reads the lexemes for the file to highlight. A file of unknown language has none. -/
def readLexemes (files : Files) (options : Options) : Except Failure (List Lexeme) :=
  match options.sourceLanguage with
  | none => .ok []
  | some language => (options.registry.lexemes files language).mapError .provider

/-- The markup that a run is after. -/
def markup (files : Files) (environment : Environment) (options : Options) :
    Except Failure Text := do
  let settings ← options.settings environment
  let text ← readSource files options.file
  let payload ← readPayload files options.semanticTokens
  let lexemes ← readLexemes files options
  let request : Request :=
    { text
      stream := payload.data
      legend := payload.tokenLegend
      announced := payload.encoding
      lexemes
      language := options.sourceLanguage }
  (request.markup settings).mapError (.highlight options.file)

/-! ## The world around a run -/

/-- What a run can ask of the host that it runs on. `Disk` is whatever the host keeps its files
in. -/
structure Host (Disk : Type) where
  /-- The files on a disk. -/
  files : Disk → Files
  environment : Environment
  /-- Writes a text to a file. Says whether that went well, and what the disk is like afterwards.
  A write that fails may have changed the disk as well. -/
  write : Disk → String → Text → Bool × Disk

/-- What a run can change: the disk, and the place for logs. -/
structure World (Disk : Type) where
  disk : Disk
  logs : LogDirectory
deriving DecidableEq, Repr

/-- What can be seen of a run from outside. -/
structure Outcome (Disk : Type) where
  exitCode : Nat
  stdout : Text := []
  failure : Option String := none
  /-- Whether a log was begun, and its path made known. -/
  logged : Bool := false
  world : World Disk
deriving DecidableEq, Repr

/-- What the program says of itself. -/
def versionText : String := "lsp-highlight 0.1.0\n"

/-- What is printed when help is asked for. -/
def helpText : String :=
  "Usage: lsp-highlight [OPTIONS] --semantic-tokens <JSON> <FILE>\n"

/-- What is said when no log can be written. -/
def loggingFailure : String := "Failed to initialize logging"

variable {Disk : Type}

/-- Ends a run with a failure. -/
def report (world : World Disk) (logged : Bool) (failure : Failure) : Outcome Disk :=
  { exitCode := 1, failure := some failure.message, logged, world }

/-- Prints the markup, or writes it to the output file. -/
def deliver (host : Host Disk) (world : World Disk) (logged : Bool) (html : Text) :
    Option String → Outcome Disk
  | none => { exitCode := 0, stdout := html, logged, world }
  | some path =>
    match host.write world.disk path html with
    | (true, disk) => { exitCode := 0, logged, world := { world with disk } }
    | (false, disk) => report { world with disk } logged (.unwritable path)

/-- Highlights the file that the options name. -/
def highlightFile (host : Host Disk) (world : World Disk) (logged : Bool) (options : Options) :
    Outcome Disk :=
  match markup (host.files world.disk) host.environment options with
  | .ok html => deliver host world logged html options.output
  | .error failure => report world logged failure

/-- Runs the command line on a host. -/
def execute (host : Host Disk) (world : World Disk) (texts : List String) : Outcome Disk :=
  match invocation texts with
  | .misuse => { exitCode := 2, world }
  | .version => { exitCode := 0, stdout := versionText.toList, world }
  | .help => { exitCode := 0, stdout := helpText.toList, world }
  | .run options =>
    if options.logFile then
      match world.logs.tidy? with
      | none => { exitCode := 1, failure := some loggingFailure, world }
      | some logs => highlightFile host { world with logs } true options
    else highlightFile host world false options

end TokenMarkup.CommandLine
