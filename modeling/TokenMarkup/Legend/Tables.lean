import TokenMarkup.Legend

/-!
# Legends with reverse tables

Writing a stream asks for the number of a name, token after token. An `IndexedLegend` answers from a
table beside each of its lists. The tables are filled once, when the legend is made: names are
entered in the order of their list, and a name that is in the table keeps the number it has. The
numbers are words of 32 bits.
-/

namespace TokenMarkup

/-- Numbers by name. -/
abbrev ReverseTable := List (String × UInt32)

namespace ReverseTable

/-- Enters a name with its number, unless the name has one already. -/
def enter (table : ReverseTable) (name : String) (number : UInt32) : ReverseTable :=
  match table.lookup name with
  | some _ => table
  | none => (name, number) :: table

/-- Enters names by their places, of which the first is `place`. -/
def enterFrom (place : Nat) (table : ReverseTable) : List String → ReverseTable
  | [] => table
  | name :: rest => enterFrom (place + 1) (table.enter name (UInt32.ofNat place)) rest

end ReverseTable

/-- A list of names with the table of their numbers. -/
structure NameIndex where
  names : List String
  table : ReverseTable
deriving Repr

namespace NameIndex

/-- Names by their places in a list. -/
def ofNames (names : List String) : NameIndex := ⟨names, ReverseTable.enterFrom 0 [] names⟩

/-- The name of a number. -/
def name? (index : NameIndex) (number : UInt32) : Option String := index.names[number.toNat]?

/-- The number of a name. -/
def number? (index : NameIndex) (name : String) : Option UInt32 := index.table.lookup name

end NameIndex

/-- A legend that looks up names in tables. -/
structure IndexedLegend where
  types : NameIndex
  modifiers : NameIndex
deriving Repr

namespace IndexedLegend

/-- The legend of two lists of names. -/
def ofNames (types modifiers : List String) : IndexedLegend :=
  ⟨.ofNames types, .ofNames modifiers⟩

/-- Two legends are equal if their lists are. The tables are not looked at. -/
instance : BEq IndexedLegend where
  beq a b := a.types.names == b.types.names && a.modifiers.names == b.modifiers.names

/-- The name of a type index. -/
def type? (legend : IndexedLegend) (index : UInt32) : Option String := legend.types.name? index

/-- The name of a modifier bit. -/
def modifier? (legend : IndexedLegend) (bit : UInt32) : Option String := legend.modifiers.name? bit

/-- The index of a type name. -/
def typeIndex? (legend : IndexedLegend) (name : String) : Option UInt32 :=
  legend.types.number? name

/-- The bit of a modifier name. -/
def modifierBit? (legend : IndexedLegend) (name : String) : Option UInt32 :=
  legend.modifiers.number? name

/-- The legend as a server announces it. -/
def announced (legend : IndexedLegend) : AnnouncedLegend :=
  ⟨legend.types.names, legend.modifiers.names⟩

end IndexedLegend

/-- The legend that a server announced, with its tables. -/
def AnnouncedLegend.indexed (announced : AnnouncedLegend) : IndexedLegend :=
  .ofNames announced.tokenTypes announced.tokenModifiers

/-- A legend with its tables. -/
def Legend.indexed (legend : Legend) : IndexedLegend := .ofNames legend.types legend.modifiers

example : Legend.default.indexed.typeIndex? "class" = some 2 := by decide
example : Legend.default.indexed.typeIndex? "label" = none := by decide

end TokenMarkup
