import Mathlib.Data.List.Dedup
import Mathlib.Data.List.Sort
import TokenMarkup.Proofs.Steps
import TokenMarkup.Wire

/-!
# Names and the numbers that stand for them

A legend may list a name more than once. Any of its places stands for the name when a stream is
read, and the first one (`FirstAt`) when a stream is written. For modifiers, whose places are the
bits of one entry, this module says:

* `Wire.resolveModifiers_eq_ok_iff`: reading an entry collects the names of its bits, lowest first;
* `Wire.modifiersEntry_eq_ok`, `Wire.firstAt_of_modifiersEntry`: writing succeeds if and only if
  each name has its first place below 32, and sets just these places;
* `Wire.resolveModifiers_modifiersEntry`: what is read from a written entry are the names without
  repeats, by their first places (`Modifiers.sortedBy`).
-/

namespace TokenMarkup

/-! ## First places -/

/-- Whether a name stands at `place` of a list, and nowhere in front of it. -/
def FirstAt (names : List String) (name : String) (place : Nat) : Prop :=
  names[place]? = some name ∧ ∀ earlier < place, names[earlier]? ≠ some name

theorem idxOf?_eq_some_iff_firstAt {names : List String} {name : String} {place : Nat} :
    names.idxOf? name = some place ↔ FirstAt names name place := by
  rw [List.idxOf?_eq_some_iff, FirstAt]
  constructor
  · rintro ⟨inside, here, before⟩
    refine ⟨List.getElem?_eq_some_iff.mpr ⟨inside, here⟩, ?_⟩
    intro earlier less found
    obtain ⟨_, same⟩ := List.getElem?_eq_some_iff.mp found
    exact before earlier less same
  · rintro ⟨found, before⟩
    obtain ⟨inside, here⟩ := List.getElem?_eq_some_iff.mp found
    refine ⟨inside, here, ?_⟩
    intro earlier less same
    exact before earlier less (List.getElem?_eq_some_iff.mpr ⟨by omega, same⟩)

namespace FirstAt

variable {names : List String} {name : String} {place place' : Nat}

theorem unique (first : FirstAt names name place) (first' : FirstAt names name place') :
    place = place' := by
  have found := idxOf?_eq_some_iff_firstAt.mpr first
  rw [idxOf?_eq_some_iff_firstAt.mpr first', Option.some.injEq] at found
  exact found.symm

theorem idxOf_eq (first : FirstAt names name place) : names.idxOf name = place := by
  rw [List.idxOf_eq_getD_idxOf?, idxOf?_eq_some_iff_firstAt.mpr first, Option.getD_some]

theorem mem (first : FirstAt names name place) : name ∈ names := List.mem_of_getElem? first.1

theorem of_nodup (distinct : names.Nodup) (found : names[place]? = some name) :
    FirstAt names name place := by
  refine ⟨found, ?_⟩
  intro earlier less found'
  obtain ⟨inside, here⟩ := List.getElem?_eq_some_iff.mp found
  obtain ⟨inside', here'⟩ := List.getElem?_eq_some_iff.mp found'
  have same := (distinct.getElem_inj_iff).mp (here'.trans here.symm)
  omega

end FirstAt

theorem Legend.typeIndex?_eq_some_iff {legend : Legend} {name : String} {index : Nat} :
    legend.typeIndex? name = some index ↔ FirstAt legend.types name index :=
  idxOf?_eq_some_iff_firstAt

theorem Legend.modifierBit?_eq_some_iff {legend : Legend} {name : String} {bit : Nat} :
    legend.modifierBit? name = some bit ↔ FirstAt legend.modifiers name bit :=
  idxOf?_eq_some_iff_firstAt

/-- A name that stands somewhere has a first place, there or in front. -/
theorem exists_firstAt {names : List String} {name : String} {place : Nat}
    (found : names[place]? = some name) : ∃ first ≤ place, FirstAt names name first := by
  induction place using Nat.strong_induction_on with
  | _ place ih =>
      by_cases before : ∃ earlier < place, names[earlier]? = some name
      · obtain ⟨earlier, less, found'⟩ := before
        obtain ⟨first, le, firstAt⟩ := ih earlier less found'
        exact ⟨first, by omega, firstAt⟩
      · refine ⟨place, Nat.le_refl place, found, ?_⟩
        intro earlier less found'
        exact before ⟨earlier, less, found'⟩

/-! ## Sets of modifiers -/

namespace Modifiers

theorem contains_iff {set : Modifiers} {name : String} :
    set.contains name ↔ name ∈ set.names := List.contains_iff_mem

theorem mem_insert {set : Modifiers} {name other : String} :
    other ∈ (set.insert name).names ↔ other ∈ set.names ∨ other = name := by
  rw [insert]
  split
  · next present =>
      rw [contains_iff] at present
      constructor
      · exact .inl
      · rintro (member | rfl)
        · exact member
        · exact present
  · simp

theorem nodup_insert {set : Modifiers} (name : String) (distinct : set.names.Nodup) :
    (set.insert name).names.Nodup := by
  rw [insert]
  split
  · exact distinct
  · next absent =>
      rw [contains_iff] at absent
      exact List.nodup_append.mpr ⟨distinct, List.nodup_singleton name, by
        intro a member b single same
        exact absent (List.mem_singleton.mp single ▸ same ▸ member)⟩

theorem mem_foldl_insert {names : List String} {set : Modifiers} {name : String} :
    name ∈ (names.foldl insert set).names ↔ name ∈ set.names ∨ name ∈ names := by
  induction names generalizing set with
  | nil => simp
  | cons first rest ih => rw [List.foldl_cons, ih, mem_insert, List.mem_cons, or_assoc]

theorem nodup_foldl_insert {names : List String} {set : Modifiers} (distinct : set.names.Nodup) :
    (names.foldl insert set).names.Nodup := by
  induction names generalizing set with
  | nil => exact distinct
  | cons first rest ih => exact ih (nodup_insert first distinct)

theorem mem_ofList {names : List String} {name : String} :
    name ∈ (ofList names).names ↔ name ∈ names := by
  rw [ofList, mem_foldl_insert]
  simp [empty]

theorem nodup_ofList (names : List String) : (ofList names).names.Nodup :=
  nodup_foldl_insert List.nodup_nil

theorem foldl_insert_of_nodup {names : List String} {set : Modifiers}
    (distinct : (set.names ++ names).Nodup) :
    (names.foldl insert set).names = set.names ++ names := by
  induction names generalizing set with
  | nil => simp
  | cons first rest ih =>
      have absent : first ∉ set.names := by
        intro present
        exact (List.nodup_append.mp distinct).2.2 first present first List.mem_cons_self rfl
      have appended : (set.insert first).names = set.names ++ [first] := by
        rw [insert, if_neg (mt contains_iff.mp absent)]
      rw [List.foldl_cons, ih (by simpa [appended] using distinct), appended]
      simp

theorem ofList_of_nodup {names : List String} (distinct : names.Nodup) :
    ofList names = ⟨names⟩ := by
  have same : (ofList names).names = names := @foldl_insert_of_nodup names empty distinct
  exact congrArg Modifiers.mk same

theorem agrees_of_perm {a b : Modifiers} (perm : a.names.Perm b.names) : a.agrees b := by
  have same : a.size = b.size := perm.length_eq
  simp only [agrees, same, beq_self_eq_true, Bool.true_and, List.all_eq_true, contains_iff]
  exact fun name member => perm.subset member

/-- The names without repeats, by their first places in a legend. -/
def sortedBy (legend : Legend) (set : Modifiers) : Modifiers :=
  ⟨set.names.dedup.mergeSort fun a b => legend.modifiers.idxOf a ≤ legend.modifiers.idxOf b⟩

theorem sortedBy_perm {legend : Legend} {set : Modifiers} (distinct : set.names.Nodup) :
    (set.sortedBy legend).names.Perm set.names := by
  have perm : (set.sortedBy legend).names.Perm set.names.dedup := List.mergeSort_perm _ _
  rwa [distinct.dedup] at perm

/-- There is one way to list names by their first places. -/
theorem mk_eq_sortedBy {legend : Legend} {set : Modifiers} {names : List String}
    (ascending : names.Pairwise fun a b => legend.modifiers.idxOf a < legend.modifiers.idxOf b)
    (members : ∀ name, name ∈ names ↔ name ∈ set.names)
    (listed : ∀ name ∈ set.names, name ∈ legend.modifiers) : ⟨names⟩ = set.sortedBy legend := by
  have perm : names.Perm (set.sortedBy legend).names := by
    have distinct : names.Nodup := ascending.imp fun less same => by simp [same] at less
    refine List.Perm.trans ?_ (List.mergeSort_perm _ _).symm
    refine (List.perm_ext_iff_of_nodup distinct (List.nodup_dedup _)).mpr ?_
    intro name
    rw [members, List.mem_dedup]
  have sorted : (set.sortedBy legend).names.Pairwise
      fun a b => legend.modifiers.idxOf a ≤ legend.modifiers.idxOf b := by
    have pairwise := @List.pairwise_mergeSort _
      (fun a b => decide (legend.modifiers.idxOf a ≤ legend.modifiers.idxOf b))
      (by simpa using fun a b c => Nat.le_trans) (by simpa using fun a b => Nat.le_total _ _)
      set.names.dedup
    exact pairwise.imp of_decide_eq_true
  have same : names = (set.sortedBy legend).names := by
    refine List.Perm.eq_of_pairwise ?_ (ascending.imp Nat.le_of_lt) sorted perm
    intro a b inNames _ le ge
    exact (List.idxOf_inj (listed a ((members a).mp inNames))).mp (Nat.le_antisymm le ge)
  rw [same]

end Modifiers

/-! ## Entries of modifiers -/

namespace Wire

variable {legend : Legend} {ordinal : Nat}

theorem lt_of_testBit {entry : UInt32} {bit : Nat} (isSet : entry.toNat.testBit bit) :
    bit < 32 := by
  by_contra outside
  have small : entry.toNat < 2 ^ bit :=
    Nat.lt_of_lt_of_le entry.toNat_lt (Nat.pow_le_pow_right (by decide) (Nat.not_lt.mp outside))
  rw [Nat.testBit_lt_two_pow small] at isSet
  cases isSet

theorem mem_setBits {entry : UInt32} {bit : Nat} :
    bit ∈ setBits entry ↔ entry.toNat.testBit bit := by
  simpa only [setBits, List.mem_filter, List.mem_range, and_iff_right_iff_imp] using lt_of_testBit

theorem pairwise_setBits (entry : UInt32) : (setBits entry).Pairwise (· < ·) :=
  List.pairwise_lt_range.filter _

theorem eq_of_testBit_iff {a b : UInt32}
    (same : ∀ bit, a.toNat.testBit bit ↔ b.toNat.testBit bit) : a = b := by
  apply UInt32.toNat_inj.mp
  apply Nat.eq_of_testBit_eq
  intro bit
  exact Bool.eq_iff_iff.mpr (same bit)

theorem testBit_or_shiftLeft {bits : UInt32} {place : Nat} (small : place < 32) {bit : Nat} :
    (bits ||| (1 <<< UInt32.ofNat place)).toNat.testBit bit ↔
      bits.toNat.testBit bit ∨ bit = place := by
  have power : (1 <<< UInt32.ofNat place : UInt32).toNat = 2 ^ place := by
    have bound : 2 ^ place < 2 ^ 32 := Nat.pow_lt_pow_right (by decide) small
    have shift : (UInt32.ofNat place).toNat % 32 = place := by
      rw [UInt32.toNat_ofNat_of_lt' (by simp [UInt32.size]; omega), Nat.mod_eq_of_lt small]
    rw [UInt32.toNat_shiftLeft, shift, UInt32.toNat_one, Nat.one_shiftLeft, Nat.mod_eq_of_lt bound]
  rw [UInt32.toNat_or, Nat.testBit_or, power, Nat.testBit_two_pow, Bool.or_eq_true,
    decide_eq_true_eq, @eq_comm _ place]

theorem resolveBit_eq_ok_iff {bit : Nat} {name : String} :
    resolveBit legend ordinal bit = .ok name ↔ legend.modifier? bit = some name := by
  rw [resolveBit]
  split <;> simp_all

theorem resolveModifiers_eq_ok_iff {entry : UInt32} {modifiers : Modifiers} :
    resolveModifiers legend ordinal entry = .ok modifiers ↔
      (∀ bit ∈ setBits entry, ∃ name, legend.modifier? bit = some name) ∧
        modifiers = .ofList ((setBits entry).filterMap legend.modifier?) := by
  rw [resolveModifiers, Modifiers.ofList]
  generalize setBits entry = bits, Modifiers.empty = set
  induction bits generalizing set with
  | nil => simp [pure, Except.pure, eq_comm]
  | cons bit bits ih =>
      rw [List.foldlM_cons, bind_eq_ok_iff, List.forall_mem_cons]
      cases found : legend.modifier? bit with
      | none =>
          have unresolved : ∀ set', set.insert <$> resolveBit legend ordinal bit ≠ .ok set' := by
            intro set' done
            obtain ⟨name, resolved, -⟩ := map_eq_ok_iff.mp done
            rw [resolveBit_eq_ok_iff, found] at resolved
            cases resolved
          simp [unresolved]
      | some name =>
          have resolved : set.insert <$> resolveBit legend ordinal bit = .ok (set.insert name) := by
            rw [resolveBit_eq_ok_iff.mpr found]
            rfl
          simp [resolved, found, ih]

theorem mem_resolveModifiers_iff {entry : UInt32} {modifiers : Modifiers} {name : String}
    (run : resolveModifiers legend ordinal entry = .ok modifiers) :
    name ∈ modifiers.names ↔
      ∃ bit, entry.toNat.testBit bit ∧ legend.modifier? bit = some name := by
  obtain ⟨-, collected⟩ := resolveModifiers_eq_ok_iff.mp run
  simp only [collected, Modifiers.mem_ofList, List.mem_filterMap, mem_setBits]

theorem modifierBit_eq_ok_iff {name : String} {bit : Nat} :
    modifierBit legend ordinal name = .ok bit ↔
      FirstAt legend.modifiers name bit ∧ bit < 32 := by
  rw [← Legend.modifierBit?_eq_some_iff, modifierBit]
  split
  · next place found =>
      rw [found, Option.some.injEq]
      split
      · next small =>
          rw [Except.ok.injEq]
          exact ⟨fun same => ⟨same, same ▸ small⟩, And.left⟩
      · next large =>
          refine iff_of_false (by simp) ?_
          rintro ⟨rfl, small⟩
          exact large small
  · next missing => simp [missing]

/-- Names that all have a first place below 32 are written, as these places beside the bits that are
set already. -/
theorem foldlM_modifierBit_eq_ok {names : List String} {bits : UInt32}
    (room : ∀ name ∈ names, ∃ bit < 32, FirstAt legend.modifiers name bit) :
    ∃ entry, (names.foldlM (fun bits name => do
        let bit ← modifierBit legend ordinal name
        return bits ||| (1 <<< UInt32.ofNat bit)) bits : Except Fault UInt32) = .ok entry ∧
      ∀ bit, entry.toNat.testBit bit ↔
        bits.toNat.testBit bit ∨ ∃ name ∈ names, FirstAt legend.modifiers name bit := by
  induction names generalizing bits with
  | nil => exact ⟨bits, rfl, by simp⟩
  | cons name names ih =>
      rw [List.forall_mem_cons] at room
      obtain ⟨⟨place, small, first⟩, rest⟩ := room
      obtain ⟨entry, done, isSet⟩ := @ih (bits ||| (1 <<< UInt32.ofNat place)) rest
      have placed := @modifierBit_eq_ok_iff legend ordinal name place |>.mpr ⟨first, small⟩
      refine ⟨entry, ?_, ?_⟩
      · rw [List.foldlM_cons, placed]
        exact done
      · intro bit
        have here : bit = place ↔ FirstAt legend.modifiers name bit :=
          ⟨fun same => same ▸ first, fun firstAt => firstAt.unique first⟩
        simp only [isSet, testBit_or_shiftLeft small, here, List.exists_mem_cons_iff, or_assoc]

theorem modifiersEntry_eq_ok {set : Modifiers}
    (room : ∀ name ∈ set.names, ∃ bit < 32, FirstAt legend.modifiers name bit) :
    ∃ entry, modifiersEntry legend ordinal set = .ok entry ∧
      ∀ bit, entry.toNat.testBit bit ↔ ∃ name ∈ set.names, FirstAt legend.modifiers name bit := by
  simpa [modifiersEntry] using @foldlM_modifierBit_eq_ok legend ordinal set.names 0 room

theorem firstAt_of_modifiersEntry {set : Modifiers} {entry : UInt32}
    (run : modifiersEntry legend ordinal set = .ok entry) :
    ∀ name ∈ set.names, ∃ bit < 32, FirstAt legend.modifiers name bit := by
  rw [modifiersEntry] at run
  generalize set.names = names, (0 : UInt32) = bits at run
  induction names generalizing bits with
  | nil => simp
  | cons name names ih =>
      rw [List.foldlM_cons] at run
      obtain ⟨next, step, rest⟩ := bind_eq_ok_iff.mp run
      obtain ⟨bit, placed, -⟩ := bind_eq_ok_iff.mp step
      obtain ⟨first, small⟩ := modifierBit_eq_ok_iff.mp placed
      exact List.forall_mem_cons.mpr ⟨⟨bit, small, first⟩, ih next rest⟩

theorem testBit_modifiersEntry_iff {set : Modifiers} {entry : UInt32} {bit : Nat}
    (run : modifiersEntry legend ordinal set = .ok entry) :
    entry.toNat.testBit bit ↔ ∃ name ∈ set.names, FirstAt legend.modifiers name bit := by
  obtain ⟨entry', done, isSet⟩ := @modifiersEntry_eq_ok legend ordinal set
    (firstAt_of_modifiersEntry run)
  rw [run, Except.ok.injEq] at done
  exact done ▸ isSet bit

/-- A name that is read from a written entry was written, and by its first place. -/
theorem firstAt_of_mem_setBits {set : Modifiers} {entry : UInt32} {bit : Nat} {name : String}
    (run : modifiersEntry legend ordinal set = .ok entry) (member : bit ∈ setBits entry)
    (found : legend.modifier? bit = some name) :
    name ∈ set.names ∧ FirstAt legend.modifiers name bit := by
  obtain ⟨name', inSet, firstAt⟩ := (testBit_modifiersEntry_iff run).mp (mem_setBits.mp member)
  have same : some name' = some name := firstAt.1.symm.trans found
  exact Option.some.inj same ▸ ⟨inSet, firstAt⟩

theorem mem_filterMap_setBits {set : Modifiers} {entry : UInt32} {name : String}
    (run : modifiersEntry legend ordinal set = .ok entry) :
    name ∈ (setBits entry).filterMap legend.modifier? ↔ name ∈ set.names := by
  rw [List.mem_filterMap]
  constructor
  · rintro ⟨bit, member, found⟩
    exact (firstAt_of_mem_setBits run member found).1
  · intro inSet
    obtain ⟨bit, -, firstAt⟩ := firstAt_of_modifiersEntry run name inSet
    have isSet := (testBit_modifiersEntry_iff run).mpr ⟨name, inSet, firstAt⟩
    exact ⟨bit, mem_setBits.mpr isSet, firstAt.1⟩

/-- Reading a written entry gives the names by their first places, each once. -/
theorem resolveModifiers_modifiersEntry {set : Modifiers} {entry : UInt32}
    (run : modifiersEntry legend ordinal set = .ok entry) :
    resolveModifiers legend ordinal entry = .ok (set.sortedBy legend) := by
  have ascending : ((setBits entry).filterMap legend.modifier?).Pairwise
      fun a b => legend.modifiers.idxOf a < legend.modifiers.idxOf b := by
    rw [List.pairwise_filterMap]
    refine (pairwise_setBits entry).imp_of_mem ?_
    intro bit bit' member member' less name found name' found'
    rwa [(firstAt_of_mem_setBits run member found).2.idxOf_eq,
      (firstAt_of_mem_setBits run member' found').2.idxOf_eq]
  have distinct : ((setBits entry).filterMap legend.modifier?).Nodup :=
    ascending.imp fun less same => by simp [same] at less
  have listed : ∀ name ∈ set.names, name ∈ legend.modifiers := by
    intro name inSet
    obtain ⟨bit, -, firstAt⟩ := firstAt_of_modifiersEntry run name inSet
    exact firstAt.mem
  refine resolveModifiers_eq_ok_iff.mpr ⟨?_, ?_⟩
  · intro bit member
    obtain ⟨name, -, firstAt⟩ := (testBit_modifiersEntry_iff run).mp (mem_setBits.mp member)
    exact ⟨name, firstAt.1⟩
  · rw [Modifiers.ofList_of_nodup distinct]
    exact (Modifiers.mk_eq_sortedBy ascending (fun _ => mem_filterMap_setBits run) listed).symm

end Wire

end TokenMarkup
