import TokenMarkup.Text

/-!
# Session logs

Each run of the command line can leave a log behind. Logs are kept for seven days: a run that
writes one first removes those that are older, and leaves everything else alone. Ages are taken
before the run, so a log that is seven days old by then is older when the run looks at it.
-/

namespace TokenMarkup

/-- Something in the log directory. -/
structure LogEntry where
  name : String
  /-- Seconds since the last change, below zero for one that lies ahead. -/
  age : Int
  /-- Whether it is a plain file, and not a directory or the like. -/
  isFile : Bool
deriving DecidableEq, Repr

namespace LogEntry

/-- For how many seconds logs are kept. -/
def retention : Int := 7 * 24 * 60 * 60

/-- Whether the name is one that session logs have. -/
def isSessionLog (entry : LogEntry) : Bool :=
  "session-".toList.isPrefixOf entry.name.toList && ".log".toList.isSuffixOf entry.name.toList

/-- Whether the entry is a session log whose time is over. -/
def isExpired (entry : LogEntry) : Bool :=
  entry.isFile && entry.isSessionLog && retention ≤ entry.age

end LogEntry

/-- The place for logs. -/
inductive LogDirectory where
  /-- A directory with its entries, no two of one name, also one that has yet to be made. -/
  | usable (entries : List LogEntry)
  /-- Something else is in the way. -/
  | blocked
deriving DecidableEq, Repr

namespace LogDirectory

/-- Replaces the entry of the same name, or adds one behind the others. -/
def put (entry : LogEntry) : List LogEntry → List LogEntry
  | [] => [entry]
  | other :: rest =>
    if other.name == entry.name then entry :: rest else other :: put entry rest

/-- The directory into which entries are put one after the other. Of several entries with the same
name the last one stays. -/
def ofEntries (entries : List LogEntry) : LogDirectory :=
  usable (entries.foldl (fun placed entry => put entry placed) [])

/-- What is in the directory. -/
def entries : LogDirectory → List LogEntry
  | usable entries => entries
  | blocked => []

/-- The directory once a run with a log has tidied it up, if logs can be written at all. -/
def tidy? : LogDirectory → Option LogDirectory
  | usable entries => some (usable (entries.filter fun entry => !entry.isExpired))
  | blocked => none

end LogDirectory

end TokenMarkup
