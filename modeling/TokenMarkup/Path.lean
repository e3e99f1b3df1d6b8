import TokenMarkup.Text

/-!
# Paths

The parts of a file's path. A slash separates the names of a path; empty names and single dots say
nothing, and two dots stand for no file.
-/

namespace TokenMarkup.Path

/-- The names between the slashes of a path, empty ones too. -/
def components (path : String) : List Text := Text.split '/' path.toList

/-- Whether a name stands for the place it is at. -/
def staysThere (name : Text) : Bool := name == [] || name == ['.']

/-- Whether a name stands for the directory above. -/
def goesUp (name : Text) : Bool := name == ['.', '.']

/-- The names along a path, without those that stand for the place they are at. -/
def names (path : String) : List Text :=
  (components path).filter fun name => !staysThere name

/-- The name of the file at the end of a path. -/
def fileName? (path : String) : Option Text :=
  (names path).getLast?.filter fun name => !goesUp name

/-- What follows the last dot of a file name. A name whose only dot comes first has no
extension. -/
def extensionOf? (name : Text) : Option Text :=
  let backwards := name.reverse
  match backwards.dropWhile (· != '.') with
  | _ :: _ :: _ => some (backwards.takeWhile (· != '.')).reverse
  | _ => none

/-- The extension of the file at the end of a path. -/
def extension? (path : String) : Option Text :=
  (fileName? path).bind extensionOf?

example : extension? "x/a.b.c/" = some ['c'] := by decide
example : extension? "x/.c" = none := by decide

end TokenMarkup.Path
