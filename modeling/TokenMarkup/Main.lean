import TokenMarkup.CommandLine.Run

/-!
# The program

The outer layer: it reads the arguments, the environment and the files that they name, leaves the
rest to `CommandLine.markup`, and prints or writes what comes back.
-/

namespace TokenMarkup.Program

open TokenMarkup.CommandLine

/-- Reads the bytes of a file. -/
def readFile (path : String) : IO (Except String ByteArray) := do
  try
    return .ok (← IO.FS.readBinFile path)
  catch reason => return .error (toString reason)

/-- Reads the files that the options name. -/
def readFiles (options : Options) : IO Files := do
  let paths := [options.file, options.semanticTokens] ++ options.compilerTokens.toList
  let contents ← paths.mapM fun path => return (path, ← readFile path)
  return fun path => (contents.lookup path).getD (.error "not read")

/-- Reads the variables that settings are taken from. -/
def readEnvironment : IO Environment := do
  let names := [Settings.encodingVariable, Settings.stemVariable]
  let values ← names.mapM fun name => return (name, ← IO.getEnv name)
  return fun name => (values.lookup name).join

/-- The directory for session logs below the user's home directory. -/
def homeLogDirectory : IO String := do
  match ← IO.getEnv "HOME" with
  | some directory => return directory ++ "/.cache/lsp-highlight"
  | none => throw (IO.userError "Unable to determine user cache directory")

/-- The directory for session logs, below the user's cache directory. -/
def logDirectory : IO String := do
  match ← IO.getEnv "XDG_CACHE_HOME" with
  | some cache =>
    if cache.startsWith "/" then return cache ++ "/lsp-highlight" else homeLogDirectory
  | none => homeLogDirectory

/-- Removes an entry of the log directory if it is a session log whose time is over. -/
def removeExpired (now : Int) (file : IO.FS.DirEntry) : IO Unit := do
  let metadata ← file.path.metadata
  let entry : LogEntry :=
    { name := file.fileName
      age := now - metadata.modified.sec
      isFile := metadata.type matches .file }
  if entry.isExpired then IO.FS.removeFile file.path

/-- Begins a session log, and removes the logs whose time is over. An entry that cannot be removed
is left where it is. -/
def startLog (options : Options) : IO Unit := do
  let directory ← logDirectory
  IO.FS.createDirAll directory
  let path := directory ++ "/session-" ++ toString (← IO.monoNanosNow) ++ ".log"
  IO.FS.writeFile path ("Highlighting " ++ options.file ++ "\n")
  let now := (← (← IO.FS.realPath path).metadata).modified.sec
  for file in ← (← IO.FS.realPath directory).readDir do
    try removeExpired now file catch _ => pure ()
  IO.eprintln ("Logging to file: " ++ path)

/-- Prints the markup, or writes it to the output file. -/
def deliver (html : Text) : Option String → IO UInt32
  | none => do
    IO.print (String.ofList html)
    return 0
  | some path => do
    try
      IO.FS.writeFile path (String.ofList html)
      return 0
    catch _ =>
      IO.eprintln ("Error: " ++ (Failure.unwritable path).message)
      return 1

/-- Highlights the file that the options name. -/
def highlightFile (options : Options) : IO UInt32 := do
  match markup (← readFiles options) (← readEnvironment) options with
  | .ok html => deliver html options.output
  | .error failure =>
    IO.eprintln ("Error: " ++ failure.message)
    return 1

/-- Does what the arguments ask for. -/
def run (arguments : List String) : IO UInt32 := do
  match invocation arguments with
  | .misuse =>
    IO.eprint helpText
    return 2
  | .version =>
    IO.print versionText
    return 0
  | .help =>
    IO.print helpText
    return 0
  | .run options =>
    try
      if options.logFile then startLog options
    catch _ =>
      IO.eprintln loggingFailure
      return 1
    highlightFile options

end TokenMarkup.Program

/-- The program. -/
def main (arguments : List String) : IO UInt32 := TokenMarkup.Program.run arguments
