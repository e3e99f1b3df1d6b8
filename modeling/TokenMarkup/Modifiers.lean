import TokenMarkup.Text.Quoted

/-!
# Modifiers of a token

A token carries any number of modifiers, such as `static` or `deprecated`. They are kept in the
order in which they were added. Inserting adds a name once; a list that was read from elsewhere is
taken as it is, and may hold a name twice.
-/

namespace TokenMarkup

/-- The modifiers of a token, in the order in which they were added. -/
structure Modifiers where
  names : List String
deriving DecidableEq, Repr

namespace Modifiers

/-- No modifiers. -/
def empty : Modifiers := ⟨[]⟩

/-- Whether there are none. -/
def isEmpty (set : Modifiers) : Bool := set.names.isEmpty

/-- How many there are. -/
def size (set : Modifiers) : Nat := set.names.length

/-- Whether a name is among them. -/
def contains (set : Modifiers) (name : String) : Bool := set.names.contains name

/-- Adds a name behind the others, unless it is there already. -/
def insert (set : Modifiers) (name : String) : Modifiers :=
  if set.contains name then set else ⟨set.names ++ [name]⟩

/-- The names, each kept at its first place. -/
def ofList (names : List String) : Modifiers := names.foldl insert empty

/-- Whether two sets are as large and the second has every name of the first. The order does not
count. -/
def agrees (a b : Modifiers) : Bool :=
  a.size == b.size && a.names.all b.contains

/-- The names in braces, each of them quoted. -/
def quoted (set : Modifiers) : String :=
  "\x7b" ++ ", ".intercalate (set.names.map Text.quoted) ++ "\x7d"

end Modifiers

end TokenMarkup
