import Mathlib.Algebra.Group.Nat.Defs
import TokenMarkup.Legend.Tables
import TokenMarkup.Proofs.LegendNames

/-!
# Reverse tables are filled by first places

The table of an `IndexedLegend` is filled in one pass over its list, and whatever is entered first
stays. After any number of names it has the first place of each (`ReverseTable.lookup_enterFrom`,
the invariant of the pass), so it is the inverse of the list as far as a list with repeats has one:
`IsFirstInverse`. Equality of legends looks at the lists alone, and as the tables are made from
these, legends that are equal cannot be told apart by a lookup. Main statement:
`IndexedLegend.tables_invert_lists`.
-/

namespace TokenMarkup

/-! ## Filling a table -/

namespace ReverseTable

/-- A name that is entered comes behind all that the table has. -/
theorem lookup_enter (table : ReverseTable) (entered name : String) (number : UInt32) :
    (table.enter entered number).lookup name =
      (table.lookup name).or (if entered = name then some number else none) := by
  unfold enter
  by_cases same : entered = name
  · subst same
    cases found : table.lookup entered <;> simp [found]
  · have different : (name == entered) = false := beq_false_of_ne (Ne.symm same)
    cases table.lookup entered <;> simp [same, different, List.lookup_cons]

/-- After a pass over names the table has what it had, and for any other name its first place. -/
theorem lookup_enterFrom (place : Nat) (table : ReverseTable) (names : List String)
    (name : String) :
    (enterFrom place table names).lookup name =
      (table.lookup name).or
        ((names.idxOf? name).map fun offset => UInt32.ofNat (place + offset)) := by
  induction names generalizing place table with
  | nil => simp [enterFrom]
  | cons first rest ih =>
      rw [enterFrom, ih, lookup_enter, Option.or_assoc, List.idxOf?_cons]
      congr 1
      by_cases same : first = name
      · simp [same]
      · simp [same, Function.comp_def, Nat.add_assoc, Nat.add_comm 1]

end ReverseTable

/-! ## One list and its table -/

/-- Whether numbers and names are each other's, for lists in which a name may be repeated: a name
has the first of all numbers that are its own, if there is any. -/
structure IsFirstInverse (names : List String) (name? : UInt32 → Option String)
    (number? : String → Option UInt32) : Prop where
  name_eq : ∀ number, name? number = names[number.toNat]?
  number_iff : ∀ name number, number? name = some number ↔
    name? number = some name ∧ ∀ earlier < number, name? earlier ≠ some name
  absent_iff : ∀ name, number? name = none ↔ name ∉ names
  number_le : ∀ number name, name? number = some name →
    ∃ first ≤ number, number? name = some first

namespace NameIndex

variable {names : List String} {name : String}

theorem number?_ofNames (names : List String) (name : String) :
    (ofNames names).number? name = (names.idxOf? name).map UInt32.ofNat := by
  unfold number? ofNames
  rw [ReverseTable.lookup_enterFrom]
  simp

/-- All places of a list with fewer than `2 ^ 32` names are words. -/
theorem toNat_ofNat_of_idxOf? {place : Nat} (few : names.length < 2 ^ 32)
    (found : names.idxOf? name = some place) : (UInt32.ofNat place).toNat = place := by
  obtain ⟨here, -⟩ := idxOf?_eq_some_iff_firstAt.mp found
  obtain ⟨inside, -⟩ := List.getElem?_eq_some_iff.mp here
  exact UInt32.toNat_ofNat_of_lt' (Nat.lt_trans inside few)

theorem map_toNat_number? (few : names.length < 2 ^ 32) (name : String) :
    ((ofNames names).number? name).map UInt32.toNat = names.idxOf? name := by
  rw [number?_ofNames, Option.map_map]
  cases found : names.idxOf? name with
  | none => rfl
  | some place => exact congrArg some (toNat_ofNat_of_idxOf? few found)

theorem number?_eq_some_iff {number : UInt32} (few : names.length < 2 ^ 32) :
    (ofNames names).number? name = some number ↔ FirstAt names name number.toNat := by
  rw [number?_ofNames, Option.map_eq_some_iff, ← idxOf?_eq_some_iff_firstAt]
  constructor
  · rintro ⟨place, found, rfl⟩
    rw [toNat_ofNat_of_idxOf? few found, found]
  · intro found
    exact ⟨number.toNat, found, UInt32.ofNat_toNat⟩

/-- The first place of a name, in words. -/
theorem firstAt_toNat_iff {number : UInt32} :
    FirstAt names name number.toNat ↔ (ofNames names).name? number = some name ∧
      ∀ earlier < number, (ofNames names).name? earlier ≠ some name := by
  constructor
  · rintro ⟨here, before⟩
    exact ⟨here, fun earlier less => before earlier.toNat (UInt32.lt_iff_toNat_lt.mp less)⟩
  · rintro ⟨here, before⟩
    refine ⟨here, fun earlier less found => ?_⟩
    have same : (UInt32.ofNat earlier).toNat = earlier :=
      UInt32.toNat_ofNat_of_lt' (Nat.lt_trans less number.toNat_lt)
    refine before (.ofNat earlier) (UInt32.lt_iff_toNat_lt.mpr (same.symm ▸ less)) ?_
    show names[(UInt32.ofNat earlier).toNat]? = some name
    rw [same, found]

theorem isFirstInverse_ofNames (few : names.length < 2 ^ 32) :
    IsFirstInverse names (ofNames names).name? (ofNames names).number? where
  name_eq _ := rfl
  number_iff _ _ := (number?_eq_some_iff few).trans firstAt_toNat_iff
  absent_iff name := by
    rw [number?_ofNames, Option.map_eq_none_iff, List.idxOf?_eq_none_iff]
  number_le number name here := by
    obtain ⟨first, le, firstAt⟩ := exists_firstAt here
    have same : (UInt32.ofNat first).toNat = first :=
      UInt32.toNat_ofNat_of_lt' (Nat.lt_of_le_of_lt le number.toNat_lt)
    refine ⟨.ofNat first, UInt32.le_iff_toNat_le.mpr (same.symm ▸ le), ?_⟩
    exact (number?_eq_some_iff few).mpr (same.symm ▸ firstAt)

end NameIndex

/-! ## Legends -/

namespace IndexedLegend

/-- Whether two legends answer every lookup alike. -/
structure Alike (a b : IndexedLegend) : Prop where
  type? : ∀ index, a.type? index = b.type? index
  modifier? : ∀ bit, a.modifier? bit = b.modifier? bit
  typeIndex? : ∀ name, a.typeIndex? name = b.typeIndex? name
  modifierBit? : ∀ name, a.modifierBit? name = b.modifierBit? name

theorem Alike.refl (legend : IndexedLegend) : legend.Alike legend :=
  ⟨fun _ => rfl, fun _ => rfl, fun _ => rfl, fun _ => rfl⟩

variable {types modifiers types' modifiers' : List String}

/-- Legends that are equal have the same tables, for these are made from their lists. -/
theorem alike_of_beq (equal : ofNames types modifiers == ofNames types' modifiers') :
    (ofNames types modifiers).Alike (ofNames types' modifiers') := by
  obtain ⟨sameTypes, sameModifiers⟩ := Bool.and_eq_true_iff.mp equal
  obtain rfl : types = types' := eq_of_beq sameTypes
  obtain rfl : modifiers = modifiers' := eq_of_beq sameModifiers
  exact Alike.refl _

/-- For lists with fewer than `2 ^ 32` names and any repeats, each table is the first inverse of its
list. Legends that are equal answer every lookup alike, and so does a legend that was announced and
read back. What the tables say is what a legend without tables finds by going through its lists. -/
theorem tables_invert_lists (types modifiers : List String) (fewTypes : types.length < 2 ^ 32)
    (fewModifiers : modifiers.length < 2 ^ 32) :
    IsFirstInverse types (ofNames types modifiers).type? (ofNames types modifiers).typeIndex? ∧
    IsFirstInverse modifiers (ofNames types modifiers).modifier?
      (ofNames types modifiers).modifierBit? ∧
    (∀ types' modifiers', ofNames types modifiers == ofNames types' modifiers' →
      (ofNames types modifiers).Alike (ofNames types' modifiers')) ∧
    AnnouncedLegend.indexed ⟨types, modifiers⟩ = ofNames types modifiers ∧
    (ofNames types modifiers).Alike (ofNames types modifiers).announced.indexed ∧
    ∀ name, ((ofNames types modifiers).typeIndex? name).map UInt32.toNat =
        Legend.typeIndex? ⟨types, modifiers⟩ name ∧
      ((ofNames types modifiers).modifierBit? name).map UInt32.toNat =
        Legend.modifierBit? ⟨types, modifiers⟩ name := by
  refine ⟨NameIndex.isFirstInverse_ofNames fewTypes, NameIndex.isFirstInverse_ofNames fewModifiers,
    fun _ _ => alike_of_beq, rfl, Alike.refl _, fun name => ⟨?_, ?_⟩⟩
  · exact NameIndex.map_toNat_number? fewTypes name
  · exact NameIndex.map_toNat_number? fewModifiers name

/-- A name that is listed three times, among others and in a row. -/
theorem tables_invert_lists_repeats :
    (ofNames ["type", "class", "class", "enum", "class"] ["static"]).typeIndex? "class" = some 1 ∧
    (∃ first ≤ 4, (ofNames ["type", "class", "class", "enum", "class"] ["static"]).typeIndex?
      "class" = some first) ∧
    (ofNames ["type", "class", "class", "enum", "class"] ["static"]).typeIndex? "label" = none ∧
    (ofNames ["type", "class", "class", "enum", "class"] ["static"]).modifierBit? "static" =
      some 0 := by
  obtain ⟨types, modifiers, -⟩ := tables_invert_lists
    ["type", "class", "class", "enum", "class"] ["static"] (by decide) (by decide)
  refine ⟨(types.number_iff _ _).mpr ⟨rfl, ?_⟩, types.number_le 4 "class" rfl,
    (types.absent_iff _).mpr (by decide), (modifiers.number_iff _ _).mpr ⟨rfl, ?_⟩⟩
  · intro earlier less
    obtain rfl : earlier = 0 := UInt32.lt_one_iff.mp less
    decide
  · exact fun earlier less => absurd less UInt32.not_lt_zero

end IndexedLegend

end TokenMarkup
