import Mathlib.Data.Fintype.EquivFin
import TokenMarkup.Proofs.JsonFormats
import TokenMarkup.Proofs.LegendNames

/-!
# When modifiers that agree are the same set

`Modifiers.agrees` compares two sizes and looks whether the second set has every name of the first.
For lists without repeats that is equality of sets, and inserting makes no repeats. A list that is
read from JSON is taken as it stands, and may bring some. Agreement is reflexive and transitive even
then, but one list with a repeat is enough for it not to be symmetric: there is always another set
that has all its names and, for the repeats, some more (`exists_agrees_of_not_nodup`). So it is
equality of sets if and only if no list with a repeat is read (`agrees_isSetEquality_iff`).
-/

namespace TokenMarkup.Modifiers

/-- The ways to come by modifiers: none at all, one name after the other, the names of a list, and
what is read from JSON, alone or with a token. What is read is taken as it stands, and `admits` says
what there is to read. -/
inductive Obtained (admits : List String → Prop) : Modifiers → Prop
  | empty : Obtained admits .empty
  | insert {set : Modifiers} (name : String) : Obtained admits set →
      Obtained admits (set.insert name)
  | ofList (names : List String) : Obtained admits (.ofList names)
  | read {value : Json} {set : Modifiers} : Token.readModifiers value = .ok set →
      admits set.names → Obtained admits set
  | token {value : Json} {token : Token} : Token.ofJson value = .ok token →
      admits token.modifiers.names → Obtained admits token.modifiers

/-- Whether modifiers of some origin are sets, and agreement is equality of these sets. -/
structure IsSetEquality (origin : Modifiers → Prop) : Prop where
  nodup : ∀ a, origin a → a.names.Nodup
  refl : ∀ a, origin a → a.agrees a
  symm : ∀ a b, origin a → origin b → a.agrees b → b.agrees a
  trans : ∀ a b c, origin a → origin b → origin c → a.agrees b → b.agrees c → a.agrees c
  same_iff : ∀ a b, origin a → origin b →
    (a.agrees b ↔ ∀ name, a.contains name ↔ b.contains name)

variable {a b c : Modifiers} {admits : List String → Prop}

/-! ## Agreement -/

theorem agrees_iff :
    a.agrees b ↔ a.names.length = b.names.length ∧ a.names ⊆ b.names := by
  simp only [agrees, size, Bool.and_eq_true, beq_iff_eq, List.all_eq_true, contains_iff]
  rfl

theorem agrees_refl (a : Modifiers) : a.agrees a := agrees_of_perm (.refl _)

theorem agrees_trans (first : a.agrees b) (second : b.agrees c) : a.agrees c := by
  rw [agrees_iff] at first second ⊢
  exact ⟨first.1.trans second.1, List.Subset.trans first.2 second.2⟩

/-- Names without a repeat that are all in a list no longer than theirs are that list, but for the
order. -/
theorem perm_of_agrees (distinct : a.names.Nodup) (agree : a.agrees b) :
    a.names.Perm b.names := by
  obtain ⟨length, subset⟩ := agrees_iff.mp agree
  exact (distinct.subperm subset).perm_of_length_le (Nat.le_of_eq length.symm)

theorem agrees_iff_contains (distinct : a.names.Nodup) (distinct' : b.names.Nodup) :
    a.agrees b ↔ ∀ name, a.contains name ↔ b.contains name := by
  simp only [contains_iff]
  constructor
  · intro agree name
    exact (perm_of_agrees distinct agree).mem_iff
  · intro same
    exact agrees_of_perm ((List.perm_ext_iff_of_nodup distinct distinct').mpr same)

/-- A list with a repeat agrees with a set that does not agree with it. -/
theorem exists_agrees_of_not_nodup {names : List String} (repeated : ¬ names.Nodup) :
    ∃ others, agrees ⟨names⟩ (ofList others) ∧ ¬ (ofList others).agrees ⟨names⟩ := by
  -- As many names as the list is long, all of the list among them.
  obtain ⟨wider, superset, card⟩ :=
    Infinite.exists_superset_card_eq names.toFinset names.length names.toFinset_card_le
  have listed : ofList wider.toList = ⟨wider.toList⟩ := ofList_of_nodup wider.nodup_toList
  refine ⟨wider.toList, ?_, ?_⟩
  · rw [listed, agrees_iff]
    refine ⟨by rw [Finset.length_toList, card], ?_⟩
    intro name member
    exact Finset.mem_toList.mpr (superset (List.mem_toFinset.mpr member))
  · intro back
    rw [listed, agrees_iff] at back
    have subset : wider ⊆ names.toFinset := by
      intro name member
      exact List.mem_toFinset.mpr (back.2 (Finset.mem_toList.mpr member))
    have fewer : names.length ≤ names.toFinset.card := card ▸ Finset.card_le_card subset
    apply repeated
    rw [← Multiset.coe_nodup, ← Multiset.toFinset_card_eq_card_iff_nodup]
    exact Nat.le_antisymm names.toFinset_card_le fewer

/-! ## Histories -/

theorem Obtained.nodup (distinct : ∀ names, admits names → names.Nodup)
    (obtained : Obtained admits a) : a.names.Nodup := by
  induction obtained with
  | empty => exact List.nodup_nil
  | insert name _ ih => exact nodup_insert name ih
  | ofList names => exact nodup_ofList names
  | read _ admitted => exact distinct _ admitted
  | token _ admitted => exact distinct _ admitted

theorem isSetEquality_of_nodup (distinct : ∀ names, admits names → names.Nodup) :
    IsSetEquality (Obtained admits) where
  nodup _ obtained := obtained.nodup distinct
  refl a _ := a.agrees_refl
  symm _ _ obtained _ agree := agrees_of_perm (perm_of_agrees (obtained.nodup distinct) agree).symm
  trans _ _ _ _ _ _ := agrees_trans
  same_iff _ _ obtained obtained' :=
    agrees_iff_contains (obtained.nodup distinct) (obtained'.nodup distinct)

theorem nodup_of_symm
    (symm : ∀ a b, Obtained admits a → Obtained admits b → a.agrees b → b.agrees a) :
    ∀ names, admits names → names.Nodup := by
  intro names admitted
  by_contra repeated
  obtain ⟨others, agree, oneWay⟩ := exists_agrees_of_not_nodup repeated
  have read : Obtained admits ⟨names⟩ := .read (Token.readModifiers_texts names) admitted
  exact oneWay (symm _ _ read (.ofList others) agree)

/-- Agreement is equality of sets, whatever was done to come by them, if and only if no list that is
read has a repeat. It need only be symmetric for that; reflexive and transitive it is anyway. -/
theorem agrees_isSetEquality_iff (admits : List String → Prop) :
    (IsSetEquality (Obtained admits) ↔ ∀ names, admits names → names.Nodup) ∧
    ((∀ a b, Obtained admits a → Obtained admits b → a.agrees b → b.agrees a) ↔
      ∀ names, admits names → names.Nodup) ∧
    (∀ a : Modifiers, a.agrees a) ∧
    ∀ a b c : Modifiers, a.agrees b → b.agrees c → a.agrees c := by
  refine ⟨⟨fun law => nodup_of_symm law.symm, isSetEquality_of_nodup⟩,
    ⟨nodup_of_symm, fun distinct => (isSetEquality_of_nodup distinct).symm⟩, agrees_refl, ?_⟩
  exact fun a b c => agrees_trans

/-- With any array of strings to be read, there are two lists of which one agrees with the other and
not the other way round. -/
theorem not_isSetEquality_repeat :
    Token.readModifiers (.texts ["a", "a"]) = .ok ⟨["a", "a"]⟩ ∧
    Token.readModifiers (.texts ["a", "b"]) = .ok ⟨["a", "b"]⟩ ∧
    agrees ⟨["a", "a"]⟩ ⟨["a", "b"]⟩ = true ∧ agrees ⟨["a", "b"]⟩ ⟨["a", "a"]⟩ = false ∧
    ¬ IsSetEquality (Obtained fun _ => True) := by
  have first := Token.readModifiers_texts ["a", "a"]
  have second := Token.readModifiers_texts ["a", "b"]
  refine ⟨first, second, by decide, by decide, fun law => ?_⟩
  have back := law.symm _ _ (.read first trivial) (.read second trivial) (by decide)
  revert back
  decide

end TokenMarkup.Modifiers
