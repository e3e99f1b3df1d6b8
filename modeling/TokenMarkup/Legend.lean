/-!
# Legends

A relative token stream names types and modifiers by number. The legend lists the names: a type by
its index in one list, a modifier by its bit, which is its index in the other. A name may be listed
more than once, and then its first place counts.
-/

namespace TokenMarkup

/-- The type names and the modifier names behind the numbers of a stream. -/
structure Legend where
  types : List String
  modifiers : List String
deriving DecidableEq, Repr

namespace Legend

/-- The legend in use when none is given. -/
def default : Legend where
  types := ["namespace", "type", "class", "class", "enum", "interface", "struct", "typeParameter",
    "parameter", "variable", "property", "enumMember", "event", "function", "method", "macro",
    "keyword", "modifier", "comment", "string", "number", "regexp", "operator", "decorator",
    "identifier"]
  modifiers := ["declaration", "definition", "readonly", "static", "deprecated", "abstract",
    "async", "modification", "documentation", "defaultLibrary"]

/-- The name of a type index. -/
def type? (legend : Legend) (index : Nat) : Option String := legend.types[index]?

/-- The name of a modifier bit. -/
def modifier? (legend : Legend) (bit : Nat) : Option String := legend.modifiers[bit]?

/-- The first index of a type name. -/
def typeIndex? (legend : Legend) (name : String) : Option Nat := legend.types.idxOf? name

/-- The first bit of a modifier name. -/
def modifierBit? (legend : Legend) (name : String) : Option Nat := legend.modifiers.idxOf? name

example : default.typeIndex? "class" = some 2 := by decide
example : default.type? 3 = some "class" := by decide

end Legend

/-- A legend in the form in which a server announces it. -/
structure AnnouncedLegend where
  tokenTypes : List String
  tokenModifiers : List String
deriving DecidableEq, Repr

/-- The legend that a server announced. -/
def AnnouncedLegend.legend (announced : AnnouncedLegend) : Legend :=
  ⟨announced.tokenTypes, announced.tokenModifiers⟩

/-- A legend as a server announces it. -/
def Legend.announced (legend : Legend) : AnnouncedLegend :=
  ⟨legend.types, legend.modifiers⟩

end TokenMarkup
