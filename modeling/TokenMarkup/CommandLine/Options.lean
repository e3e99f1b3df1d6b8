import TokenMarkup.PositionEncoding

/-!
# Arguments of the command line

The arguments are one file to highlight, options with a value, and flags. A value follows its
option as the next argument or behind an equals sign; a value that starts with a dash needs the
equals sign. Each option may be given once. Behind two dashes every argument is a file.

Arguments count from left to right: the first that is wrong is a misuse, and a request for the
version or for help ends the reading, whatever would come behind it.
-/

namespace TokenMarkup.CommandLine

/-- The options with a value. -/
inductive ValueOption where
  | semanticTokens
  | compilerTokens
  | language
  | positionEncoding
  | classPrefix
  | output
  | logLevel
deriving DecidableEq, Repr

/-- The flags. -/
inductive Flag where
  | noColor
  | logFile
deriving DecidableEq, Repr

/-- An argument together with its value. -/
inductive Argument where
  | file (path : String)
  | value (option : ValueOption) (text : String)
  | flag (flag : Flag)
  | version
  | help
  /-- An argument that is none, or an option without the value that it needs. -/
  | wrong
deriving DecidableEq, Repr

/-- What the command line asks for. -/
structure Options where
  file : String
  semanticTokens : String
  compilerTokens : Option String := none
  language : Option String := none
  positionEncoding : Option PositionEncoding := none
  classPrefix : Option String := none
  output : Option String := none
  logLevel : Option String := none
  noColor : Bool := false
  logFile : Bool := false
deriving DecidableEq, Repr

/-! ## Arguments and their values -/

/-- The option with a name, behind its two dashes. -/
def valueOption? : Text → Option ValueOption := fun name =>
  match String.ofList name with
  | "semantic-tokens" => some .semanticTokens
  | "compiler-tokens" => some .compilerTokens
  | "language" => some .language
  | "position-encoding" => some .positionEncoding
  | "class-prefix" => some .classPrefix
  | "output" => some .output
  | "log-level" => some .logLevel
  | _ => none

/-- The argument without a value that has a name. -/
def bare (name : Text) : Argument :=
  match String.ofList name with
  | "no-color" => .flag .noColor
  | "log-file" => .flag .logFile
  | "version" => .version
  | "help" => .help
  | _ => .wrong

/-- Whether an argument looks like an option. A dash alone does not. -/
def isDashed (argument : String) : Bool :=
  match argument.toList with
  | '-' :: _ :: _ => true
  | _ => false

/-- The name of a long option, and the value behind an equals sign. -/
def splitValue (argument : Text) : Text × Option String :=
  match argument.dropWhile (· != '=') with
  | _ :: value => (argument.takeWhile (· != '='), some (String.ofList value))
  | [] => (argument, none)

/-- What a single argument says: it stands for itself, or it is an option whose value has to be
the next argument. -/
inductive Reading where
  | whole (argument : Argument)
  | awaiting (option : ValueOption)
deriving DecidableEq, Repr

/-- Reads an option behind its two dashes. -/
def readLong (text : Text) : Reading :=
  match splitValue text with
  | (name, attached) =>
    match valueOption? name, attached with
    | some option, some value => .whole (.value option value)
    | some option, none => .awaiting option
    | none, none => .whole (bare name)
    | none, some _ => .whole .wrong

/-- Reads an option behind its one dash. -/
def readShort : Text → Reading
  | ['o'] => .awaiting .output
  | 'o' :: '=' :: value => .whole (.value .output (String.ofList value))
  | 'o' :: value => .whole (.value .output (String.ofList value))
  | 'V' :: _ => .whole .version
  | 'h' :: _ => .whole .help
  | _ => .whole .wrong

/-- Reads an argument in front of the two dashes that end the options. -/
def readArgument (argument : String) : Reading :=
  match argument.toList with
  | '-' :: '-' :: text => readLong text
  | '-' :: c :: text => readShort (c :: text)
  | _ => .whole (.file argument)

/-- The arguments with their values. -/
def arguments : List String → List Argument
  | [] => []
  | "--" :: rest => rest.map .file
  | text :: rest =>
    match readArgument text, rest with
    | .whole argument, rest => argument :: arguments rest
    | .awaiting _, [] => [.wrong]
    | .awaiting option, value :: rest =>
      if isDashed value then [.wrong] else .value option value :: arguments rest

/-! ## Options -/

/-- What was given so far. -/
structure Draft where
  file : Option String := none
  semanticTokens : Option String := none
  compilerTokens : Option String := none
  language : Option String := none
  positionEncoding : Option PositionEncoding := none
  classPrefix : Option String := none
  output : Option String := none
  logLevel : Option String := none
  noColor : Bool := false
  logFile : Bool := false
deriving DecidableEq, Repr

/-- A path, which may not be empty, in a place where none was given before. -/
def setPath (current : Option String) (path : String) : Option String :=
  if current.isSome || path.isEmpty then none else some path

/-- A text in a place where none was given before. -/
def setText (current : Option String) (text : String) : Option String :=
  if current.isSome then none else some text

namespace Draft

/-- Takes up an option with its value, if it is in order. -/
def setValue (draft : Draft) (text : String) : ValueOption → Option Draft
  | .semanticTokens => do
    let path ← setPath draft.semanticTokens text
    return { draft with semanticTokens := some path }
  | .compilerTokens => do
    let path ← setPath draft.compilerTokens text
    return { draft with compilerTokens := some path }
  | .output => do
    let path ← setPath draft.output text
    return { draft with output := some path }
  | .language => do
    let id ← setText draft.language text
    return { draft with language := some id }
  | .classPrefix => do
    let stem ← setText draft.classPrefix text
    return { draft with classPrefix := some stem }
  | .logLevel => do
    let level ← setText draft.logLevel text
    return { draft with logLevel := some level }
  | .positionEncoding =>
    if draft.positionEncoding.isSome then none
    else do
      let encoding ← PositionEncoding.parse? text
      return { draft with positionEncoding := some encoding }

/-- Takes up a flag, if it was not given before. -/
def setFlag (draft : Draft) : Flag → Option Draft
  | .noColor => if draft.noColor then none else some { draft with noColor := true }
  | .logFile => if draft.logFile then none else some { draft with logFile := true }

/-- Takes up an argument, if it is in order. -/
def set (draft : Draft) : Argument → Option Draft
  | .file path => do
    let path ← setPath draft.file path
    return { draft with file := some path }
  | .value option text => draft.setValue text option
  | .flag flag => draft.setFlag flag
  | .version | .help | .wrong => none

/-- The options, if none is missing. -/
def options? (draft : Draft) : Option Options := do
  let file ← draft.file
  let semanticTokens ← draft.semanticTokens
  return {
    file, semanticTokens
    compilerTokens := draft.compilerTokens
    language := draft.language
    positionEncoding := draft.positionEncoding
    classPrefix := draft.classPrefix
    output := draft.output
    logLevel := draft.logLevel
    noColor := draft.noColor
    logFile := draft.logFile }

end Draft

/-- What is to be done. -/
inductive Invocation where
  | run (options : Options)
  | version
  | help
  | misuse
deriving DecidableEq, Repr

/-- What arguments ask for, on top of what was given so far. -/
def invocationFrom (draft : Draft) : List Argument → Invocation
  | [] =>
    match draft.options? with
    | some options => .run options
    | none => .misuse
  | .version :: _ => .version
  | .help :: _ => .help
  | argument :: rest =>
    match draft.set argument with
    | some draft => invocationFrom draft rest
    | none => .misuse

/-- What a command line asks for. -/
def invocation (texts : List String) : Invocation := invocationFrom {} (arguments texts)

end TokenMarkup.CommandLine
