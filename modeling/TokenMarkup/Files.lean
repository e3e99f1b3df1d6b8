import TokenMarkup.Text

/-!
# Files

What is read of a file. A host hands over its bytes, or a reason why it does not. Whether the bytes
are a text is found out here: a file that is not valid UTF-8 is refused, never repaired.
-/

namespace TokenMarkup

/-- Why a file cannot be read as text. -/
inductive ReadFault where
  /-- The host does not hand it over. -/
  | unavailable (reason : String)
  /-- The file is not valid UTF-8. -/
  | notText
deriving DecidableEq, Repr

/-- The files of a host by path: the bytes of each, or the reason why it is not handed over. -/
abbrev Files := String → Except String ByteArray

/-- The text of a file with the given bytes. -/
def textOfBytes (bytes : ByteArray) : Except ReadFault Text :=
  match String.fromUTF8? bytes with
  | some text => .ok text.toList
  | none => .error .notText

/-- Reads a file as text. -/
def readText (files : Files) (path : String) : Except ReadFault Text :=
  match files path with
  | .ok bytes => textOfBytes bytes
  | .error reason => .error (.unavailable reason)

end TokenMarkup
