import Mathlib.Algebra.Order.BigOperators.Group.List
import Mathlib.Algebra.Order.Ring.Nat
import Mathlib.Data.List.Sort
import TokenMarkup.Metrics
import TokenMarkup.Proofs.Words

/-!
# Statistics by counting

`Samples.stats` sorts the times of a stage and reads its numbers off the sorted row. Which number
stands at a place of that row can be said without sorting, by counting how many times are smaller
and how many are not larger: `IsAtRank`. Ranks grow with the places, and that is all there is to the
order of the six numbers, also for few times, where places coincide or are the last one.

* `isSummary_stats`: what the statistics say about the times, whatever their order;
* `stats_of_perm`: they depend on the times and not on their order;
* `Machine.stats_eq`: on a machine with words they are found without a trap, as long as the times
  add up to a word.
-/

namespace TokenMarkup

/-! ## Ranks -/

/-- Whether a value stands at place `k` of some numbers in ascending order: at most `k` of them are
smaller, and more than `k` are not larger. -/
def IsAtRank (numbers : List Nat) (k value : Nat) : Prop :=
  numbers.countP (· < value) ≤ k ∧ k < numbers.countP (· ≤ value)

namespace IsAtRank

variable {numbers numbers' : List Nat} {k k' value value' : Nat}

theorem of_perm (perm : numbers.Perm numbers') (rank : IsAtRank numbers k value) :
    IsAtRank numbers' k value := by
  unfold IsAtRank
  rw [← perm.countP_eq, ← perm.countP_eq]
  exact rank

/-- A smaller value would have all of its equals and predecessors below the larger one. -/
theorem le_of_le (rank : IsAtRank numbers k value) (rank' : IsAtRank numbers k' value')
    (le : k ≤ k') : value ≤ value' := by
  by_contra less
  have fewer : numbers.countP (· ≤ value') ≤ numbers.countP (· < value) :=
    List.countP_mono_left fun number _ le => by simp at le ⊢; omega
  exact absurd rank'.2 (Nat.not_lt.mpr (Nat.le_trans fewer (Nat.le_trans rank.1 le)))

theorem mem (rank : IsAtRank numbers k value) : value ∈ numbers := by
  by_contra absent
  have same : numbers.countP (· < value) = numbers.countP (· ≤ value) := by
    refine List.countP_congr fun number member => ?_
    have different : number ≠ value := fun same => absent (same ▸ member)
    simp only [decide_eq_true_eq]
    omega
  exact absurd rank.2 (Nat.not_lt.mpr (same ▸ rank.1))

theorem le_of_mem (rank : IsAtRank numbers 0 value) : ∀ number ∈ numbers, value ≤ number := by
  have none_less := List.countP_eq_zero.mp (Nat.le_zero.mp rank.1)
  intro number member
  simpa using none_less number member

theorem ge_of_mem (rank : IsAtRank numbers k value) (last : numbers.length ≤ k + 1) :
    ∀ number ∈ numbers, number ≤ value := by
  have all : numbers.countP (· ≤ value) = numbers.length :=
    Nat.le_antisymm List.countP_le_length (Nat.le_trans last rank.2)
  intro number member
  simpa using List.countP_eq_length.mp all number member

/-- Those that are not smaller are all but those that are. -/
theorem length_le (rank : IsAtRank numbers k value) :
    numbers.length ≤ k + numbers.countP (value ≤ ·) := by
  have split := @List.length_eq_countP_add_countP _ (fun number => decide (number < value)) numbers
  simp only [decide_eq_true_eq, Nat.not_lt] at split
  have := rank.1
  omega

theorem of_sorted_append {before after : List Nat}
    (sorted : (before ++ value :: after).Pairwise (· ≤ ·)) :
    IsAtRank (before ++ value :: after) before.length value := by
  obtain ⟨-, behind, across⟩ := List.pairwise_append.mp sorted
  have none_less : after.countP (· < value) = 0 := by
    refine List.countP_eq_zero.mpr fun number member => ?_
    simpa using (List.pairwise_cons.mp behind).1 number member
  have all_le : before.countP (· ≤ value) = before.length := by
    refine List.countP_eq_length.mpr fun number member => ?_
    simpa using across number member value List.mem_cons_self
  have front := @List.countP_le_length _ (fun number => decide (number < value)) before
  constructor
  · simpa [List.countP_append, none_less] using front
  · rw [List.countP_append, List.countP_cons, all_le]
    simp

theorem length_lt_of_half (rank : IsAtRank numbers (numbers.length / 2) value) :
    numbers.length < 2 * numbers.countP (· ≤ value) := by
  have more := rank.2
  omega

theorem length_le_of_half (rank : IsAtRank numbers (numbers.length / 2) value) :
    numbers.length ≤ 2 * numbers.countP (value ≤ ·) := by
  have rest := rank.length_le
  omega

/-- The place is rounded down and counts from zero, so one more than that many are not larger. -/
theorem length_le_of_most
    (rank : IsAtRank numbers (min (95 * numbers.length / 100) (numbers.length - 1)) value) :
    95 * numbers.length ≤ 100 * numbers.countP (· ≤ value) := by
  have more := rank.2
  omega

/-- In a row in ascending order a place has its own entry. -/
theorem of_sorted {row : List Nat} (sorted : row.Pairwise (· ≤ ·)) (inside : k < row.length) :
    IsAtRank row k (row.getD k 0) := by
  have split : row.take k ++ row[k] :: row.drop (k + 1) = row := by
    rw [List.getElem_cons_drop, List.take_append_drop]
  have rank := of_sorted_append (split.symm ▸ sorted)
  rwa [split, List.length_take_of_le (Nat.le_of_lt inside), List.getElem_eq_getD 0] at rank

end IsAtRank

/-! ## What the statistics say -/

/-- What six numbers say about the times of a stage. -/
structure IsSummary (times : List Nat) (stats : StageStats) : Prop where
  count_eq : stats.count = times.length
  min_isLeast : stats.min ∈ times ∧ ∀ time ∈ times, stats.min ≤ time
  max_isGreatest : stats.max ∈ times ∧ ∀ time ∈ times, time ≤ stats.max
  mean_eq : stats.mean = times.sum / times.length
  min_le_mean : stats.min ≤ stats.mean
  mean_le_max : stats.mean ≤ stats.max
  p50_rank : IsAtRank times (times.length / 2) stats.p50
  p95_rank : IsAtRank times (min (95 * times.length / 100) (times.length - 1)) stats.p95
  min_le_p50 : stats.min ≤ stats.p50
  p50_le_p95 : stats.p50 ≤ stats.p95
  p95_le_max : stats.p95 ≤ stats.max
  /-- More than half of the times are at most the median, and at least half at least that. -/
  half_le : times.length < 2 * times.countP (· ≤ stats.p50)
  half_ge : times.length ≤ 2 * times.countP (stats.p50 ≤ ·)
  most_le : 95 * times.length ≤ 100 * times.countP (· ≤ stats.p95)

namespace Samples

variable {samples samples' : Samples}

/-- The times of a stage as numbers, in ascending order. -/
def row (samples : Samples) : List Nat := (samples.map UInt64.toNat).mergeSort Nat.ble

theorem row_perm (samples : Samples) : samples.row.Perm (samples.map UInt64.toNat) :=
  List.mergeSort_perm _ _

theorem pairwise_row (samples : Samples) : samples.row.Pairwise (· ≤ ·) := by
  have sorted := @List.pairwise_mergeSort _ Nat.ble
    (fun a b c => by simpa using Nat.le_trans) (fun a b => by simpa using Nat.le_total a b)
    (samples.map UInt64.toNat)
  exact sorted.imp Nat.le_of_ble_eq_true

theorem row_of_perm (perm : samples.Perm samples') : samples.row = samples'.row := by
  have rows : samples.row.Perm samples'.row :=
    samples.row_perm.trans ((perm.map _).trans samples'.row_perm.symm)
  exact rows.eq_of_pairwise (fun _ _ _ _ => Nat.le_antisymm) samples.pairwise_row
    samples'.pairwise_row

/-- The statistics, read off the row place by place. -/
theorem stats_eq (samples : Samples) :
    samples.stats =
      { count := samples.row.length
        min := samples.row.getD 0 0
        max := samples.row.getD (samples.row.length - 1) 0
        mean := samples.row.sum / samples.row.length
        p50 := samples.row.getD (samples.row.length / 2) 0
        p95 := samples.row.getD
          (min (95 * samples.row.length / 100) (samples.row.length - 1)) 0 } := by
  have head : samples.row.headD 0 = samples.row.getD 0 0 := by cases samples.row <;> rfl
  have last : samples.row.getLastD 0 = samples.row.getD (samples.row.length - 1) 0 := by
    rw [List.getLastD_eq_getLast?, List.getLast?_eq_getElem?, List.getD_eq_getElem?_getD]
  rw [← head, ← last, List.sum_eq_foldr]
  rfl

theorem stats_of_perm (perm : samples.Perm samples') : samples.stats = samples'.stats := by
  rw [stats_eq, stats_eq, row_of_perm perm]

theorem isAtRank_row {k : Nat} (inside : k < (samples.map UInt64.toNat).length) :
    IsAtRank (samples.map UInt64.toNat) k (samples.row.getD k 0) :=
  (IsAtRank.of_sorted samples.pairwise_row (samples.row_perm.length_eq ▸ inside)).of_perm
    samples.row_perm

/-- The mean lies between two bounds of all numbers. -/
theorem mean_mem_of_bounds {times : List Nat} {low high : Nat} (timed : 0 < times.length)
    (above : ∀ time ∈ times, low ≤ time) (below : ∀ time ∈ times, time ≤ high) :
    low ≤ times.sum / times.length ∧ times.sum / times.length ≤ high := by
  have least := List.card_nsmul_le_sum times low above
  have greatest := List.sum_le_card_nsmul times high below
  rw [Nat.nsmul_eq_mul] at least greatest
  exact ⟨(Nat.le_div_iff_mul_le timed).mpr (Nat.mul_comm low _ ▸ least),
    Nat.div_le_of_le_mul greatest⟩

theorem isSummary_stats (timed : samples ≠ []) :
    IsSummary (samples.map UInt64.toNat) samples.stats := by
  have positive : 0 < (samples.map UInt64.toNat).length := by
    simpa using List.length_pos_iff.mpr timed
  rw [stats_eq, samples.row_perm.length_eq, samples.row_perm.sum_eq]
  generalize count_eq : (samples.map UInt64.toNat).length = count at positive
  have least := @isAtRank_row samples 0 (by omega)
  have half := @isAtRank_row samples (count / 2) (by omega)
  have most := @isAtRank_row samples (min (95 * count / 100) (count - 1)) (by omega)
  have greatest := @isAtRank_row samples (count - 1) (by omega)
  have above := least.le_of_mem
  have below := greatest.ge_of_mem (by omega)
  have mean := mean_mem_of_bounds (by omega) above below
  subst count_eq
  exact
    { count_eq := rfl
      min_isLeast := ⟨least.mem, above⟩
      max_isGreatest := ⟨greatest.mem, below⟩
      mean_eq := rfl
      min_le_mean := mean.1
      mean_le_max := mean.2
      p50_rank := half
      p95_rank := most
      min_le_p50 := least.le_of_le half (Nat.zero_le _)
      p50_le_p95 := half.le_of_le most (by omega)
      p95_le_max := most.le_of_le greatest (Nat.min_le_right _ _)
      half_le := half.length_lt_of_half
      half_ge := half.length_le_of_half
      most_le := most.length_le_of_most }

end Samples

/-! ## On a machine with words -/

namespace Machine

/-- The statistics of a stage. The times are added up in a word, and every place of the row is
looked up by its index. -/
def stats (samples : Samples) : Run StageStats := do
  let row := samples.row
  let count := row.length
  if count = 0 then return ⟨0, 0, 0, 0, 0, 0⟩
  let sum ← row.foldlM add 0
  let last ← sub count 1
  let least ← entry row 0
  let greatest ← entry row last
  let p50 ← entry row (count / 2)
  let p95 ← entry row (min (95 * count / 100) last)
  return { count, min := least, max := greatest, mean := sum / count, p50, p95 }

theorem entry_eq_getD {list : List Nat} {index : Nat} (inside : index < list.length) :
    entry list index = .ok (list.getD index 0) := by
  rw [entry_eq (List.getElem?_eq_getElem inside), List.getElem_eq_getD 0]

theorem foldlM_add_eq_sum {list : List Nat} (small : list.sum < UInt64.size) :
    list.foldlM add 0 = .ok list.sum := by
  rw [List.sum_eq_foldr] at small ⊢
  have added := foldlM_add_eq id list 0 (by simpa using small)
  rwa [Nat.zero_add] at added

/-- Nothing traps as long as the times add up to a word: every place is one of the row. -/
theorem stats_eq {samples : Samples} (small : (samples.map UInt64.toNat).sum < UInt64.size) :
    stats samples = .ok samples.stats := by
  rw [Samples.stats_eq]
  unfold stats
  rw [← samples.row_perm.sum_eq] at small
  generalize samples.row = row at small ⊢
  cases row with
  | nil => rfl
  | cons first rest =>
      have count : (first :: rest).length = rest.length + 1 := rfl
      simp only [foldlM_add_eq_sum small, count, Nat.succ_ne_zero, if_false, Run.ok_bind,
        sub_eq (Nat.le_add_left 1 _)]
      rw [entry_eq_getD (by omega), entry_eq_getD (by omega), entry_eq_getD (by omega),
        entry_eq_getD (by omega)]
      rfl

end Machine

end TokenMarkup
