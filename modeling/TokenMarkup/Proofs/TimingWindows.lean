import Mathlib.Data.String.Basic
import TokenMarkup.Proofs.Accounting
import TokenMarkup.Proofs.StageStatistics

/-!
# Which times are held

A record holds the latest times of each stage and drops the others one by one as new ones come in.
Here this is put in terms of all that was done to a record, however long it has been in use: of a
stage it holds the last 1024 of the times since the last reset, whatever happened to other stages in
between (`Metrics.samples?_after`), and it lists the stages that were timed since then
(`Metrics.mem_stages_after`, `Metrics.pairwise_stages_after`). Main statement:
`Metrics.after_holdsRecent`.
-/

namespace TokenMarkup

/-! ## One more time -/

/-- A duration of seconds and nanoseconds has as many whole microseconds as thousands of
nanoseconds. -/
theorem microseconds_eq (seconds nanoseconds : Nat) :
    microseconds seconds nanoseconds = (seconds * 10 ^ 9 + nanoseconds) / 1000 := by
  unfold microseconds
  omega

/-- The last items of a list and one more, of which the first goes if there is no room. -/
theorem rtake_concat_eq {α : Type} (items : List α) (last : α) (n : Nat) :
    (items ++ [last]).rtake (n + 1) =
      (if (items.rtake (n + 1)).length = n + 1 then (items.rtake (n + 1)).drop 1
        else items.rtake (n + 1)) ++ [last] := by
  rw [List.rtake_concat_succ]
  congr 1
  unfold List.rtake
  rw [List.length_drop]
  split
  · rw [List.drop_drop]
    congr 1
    omega
  · congr 1
    omega

namespace Samples

/-- The last 1024 of some times, as words. -/
def window (times : List Nat) : Samples := (times.map UInt64.ofNat).rtake 1024

/-- What is held of times in the order in which they were taken: nothing if there are none. -/
def kept (times : List Nat) : Option Samples := if times = [] then none else some (window times)

theorem push_window (times : List Nat) (time : Nat) :
    (window times).push (UInt64.ofNat time) = window (times ++ [time]) := by
  have slid := rtake_concat_eq (times.map UInt64.ofNat) (UInt64.ofNat time) 1023
  show _ = (List.map UInt64.ofNat (times ++ [time])).rtake 1024
  rw [List.map_append]
  exact slid.symm

theorem getD_kept (times : List Nat) : (kept times).getD [] = window times := by
  unfold kept
  split
  · next untimed => simp [untimed, window]
  · exact Option.getD_some

theorem kept_concat (times : List Nat) (time : Nat) :
    kept (times ++ [time]) = some (window (times ++ [time])) := if_neg (by simp)

theorem ne_nil_of_kept {times : List Nat} {samples : Samples} (found : kept times = some samples) :
    samples ≠ [] := by
  unfold kept at found
  split at found
  · cases found
  · next timed =>
      have some_time : 0 < times.length := List.length_pos_iff.mpr timed
      rw [← Option.some.inj found]
      apply List.ne_nil_of_length_pos
      rw [window, List.rtake, List.length_drop, List.length_map]
      omega

theorem map_toNat_window (times : List Nat) :
    (window times).map UInt64.toNat = (times.rtake 1024).map (· % 2 ^ 64) := by
  unfold window List.rtake
  rw [List.length_map, ← List.map_drop, List.map_map]
  exact List.map_congr_left fun time _ => UInt64.toNat_ofNat'

theorem isSome_kept {times : List Nat} : (kept times).isSome ↔ times ≠ [] := by
  unfold kept
  split <;> simp [*]

end Samples

namespace Timings

/-- The stages that have times. -/
def names (timings : Timings) : List String := timings.map Prod.fst

theorem mem_names_iff {timings : Timings} {stage : String} :
    stage ∈ timings.names ↔ (timings.lookup stage).isSome := by
  simp only [List.lookup_isSome_iff, names, List.mem_map, beq_iff_eq]
  exact exists_congr fun _ => and_congr_right fun _ => eq_comm

/-- A stage that is timed for the first time comes behind the others. -/
theorem names_push (stage : String) (micros : UInt64) (timings : Timings) :
    (push stage micros timings).names =
      if stage ∈ timings.names then timings.names else timings.names ++ [stage] := by
  induction timings with
  | nil => rfl
  | cons first rest ih =>
      obtain ⟨name, samples⟩ := first
      unfold push
      by_cases here : name = stage
      · simp [here, names]
      · have later : stage ∈ names ((name, samples) :: rest) ↔ stage ∈ names rest := by
          simp [names, Ne.symm here]
        rw [if_neg here]
        show name :: (push stage micros rest).names = _
        rw [ih]
        simp only [later]
        split <;> rfl

theorem nodup_push {timings : Timings} (stage : String) (micros : UInt64)
    (distinct : timings.names.Nodup) : (push stage micros timings).names.Nodup := by
  rw [names_push]
  split
  · exact distinct
  · next absent =>
      rw [← List.concat_eq_append]
      exact distinct.concat absent

end Timings

/-! ## The use of a record -/

namespace Metrics

/-- What is done to a record: something is counted, a stage is timed, or all starts anew. -/
inductive Step where
  | count (counter : Counter) (amount : Nat)
  | time (stage : String) (seconds nanoseconds : Nat)
  | reset
deriving DecidableEq, Repr

/-- The record after a step. -/
def step (metrics : Metrics) : Step → Metrics
  | .count counter amount => metrics.record (.count counter amount)
  | .time stage seconds nanoseconds =>
    metrics.record (.time stage (microseconds seconds nanoseconds))
  | .reset => .empty

/-- The record after steps, of which the first found nothing on record. -/
def after (steps : List Step) : Metrics := steps.foldl step .empty

/-- The whole microseconds that a step says a stage took, if it says so. -/
def Step.time? (stage : String) : Step → Option Nat
  | .time name seconds nanoseconds =>
    if name = stage then some ((seconds * 10 ^ 9 + nanoseconds) / 1000) else none
  | _ => none

/-- The times of a stage since the last reset. -/
def recorded (stage : String) (steps : List Step) : List Nat :=
  (steps.rtakeWhile (· ≠ .reset)).filterMap (Step.time? stage)

variable (stage : String) (steps : List Step)

theorem recorded_reset : recorded stage (steps ++ [.reset]) = [] := by
  unfold recorded
  rw [List.rtakeWhile_concat_neg _ _ _ (by simp)]
  rfl

theorem recorded_concat {last : Step} (goesOn : last ≠ .reset) :
    recorded stage (steps ++ [last]) = recorded stage steps ++ (last.time? stage).toList := by
  unfold recorded
  rw [List.rtakeWhile_concat_pos _ _ _ (by simpa using goesOn), List.filterMap_append]
  cases time : last.time? stage <;> simp [time]

theorem after_concat (last : Step) : after (steps ++ [last]) = (after steps).step last :=
  List.foldl_concat ..

/-- Timing a stage adds one to its own times. -/
theorem samples?_step_time (metrics : Metrics) (name : String) (seconds nanoseconds : Nat) :
    (metrics.step (.time name seconds nanoseconds)).samples? stage =
      if stage = name then
        some (Samples.push ((metrics.samples? stage).getD [])
          (UInt64.ofNat ((seconds * 10 ^ 9 + nanoseconds) / 1000)))
      else metrics.samples? stage := by
  rw [← microseconds_eq]
  show (Timings.push name _ metrics.timings).lookup stage = _
  rw [Timings.lookup_push]
  split
  · next same =>
      subst same
      rfl
  · rfl

/-- What is held of a stage are its times since the last reset, whatever else was done. -/
theorem samples?_after : (after steps).samples? stage = Samples.kept (recorded stage steps) := by
  -- From the end, since a reset forgets all that is in front of it.
  induction steps using List.reverseRecOn with
  | nil => rfl
  | append_singleton steps last ih =>
      rw [after_concat]
      cases last with
      | reset =>
          rw [recorded_reset]
          rfl
      | count counter amount =>
          show (after steps).samples? stage = _
          rw [recorded_concat stage steps (by simp), ih]
          simp [Step.time?]
      | time name seconds nanoseconds =>
          rw [recorded_concat stage steps (by simp), samples?_step_time, ih, Samples.getD_kept,
            Samples.push_window]
          by_cases same : name = stage
          · simp [same, Step.time?, Samples.kept_concat]
          · simp [same, Ne.symm same, Step.time?]

theorem mem_stages_after : stage ∈ (after steps).stages ↔ recorded stage steps ≠ [] := by
  unfold stages
  rw [List.mem_mergeSort]
  show stage ∈ (after steps).timings.names ↔ _
  rw [Timings.mem_names_iff, ← Samples.isSome_kept, ← samples?_after]
  rfl

theorem nodup_names_after : (after steps).timings.names.Nodup := by
  induction steps using List.reverseRecOn with
  | nil => exact List.nodup_nil
  | append_singleton steps last ih =>
      rw [after_concat]
      cases last with
      | reset => exact List.nodup_nil
      | count counter amount => exact ih
      | time name seconds nanoseconds => exact Timings.nodup_push name _ ih

/-- The stages are listed in ascending order, each once. -/
theorem pairwise_stages_after : (after steps).stages.Pairwise (· < ·) := by
  have sorted := @List.pairwise_mergeSort _ (fun a b : String => decide (a ≤ b))
    (fun a b c => by simpa using String.le_trans) (fun a b => by simpa using String.le_total a b)
    ((after steps).timings.map Prod.fst)
  have distinct : (after steps).stages.Nodup :=
    (List.mergeSort_perm _ _).nodup_iff.mpr (nodup_names_after steps)
  refine (sorted.and distinct).imp ?_
  rintro a b ⟨le, ne⟩
  exact lt_of_le_of_ne (of_decide_eq_true le) ne

/-- What a record says of stages, put in terms of what was done to it. -/
structure HoldsRecent (steps : List Step) (metrics : Metrics) : Prop where
  /-- Of a stage the last 1024 times since the last reset are held, or all if there are fewer: in
  their order, and modulo the size of a word. -/
  samples_eq : ∀ stage, (metrics.samples? stage).map (List.map UInt64.toNat) =
    if recorded stage steps = [] then none
    else some (((recorded stage steps).rtake 1024).map (· % 2 ^ 64))
  mem_stages_iff : ∀ stage, stage ∈ metrics.stages ↔ recorded stage steps ≠ []
  stages_sorted : metrics.stages.Pairwise (· < ·)
  /-- There are statistics of these stages and no others. If the times that are held add up to a
  word, they are found without a trap. -/
  stats_isSome_iff : ∀ stage, (metrics.stats? stage).isSome ↔ recorded stage steps ≠ []
  stats_isSummary : ∀ stage samples, metrics.samples? stage = some samples →
    (samples.map UInt64.toNat).sum < 2 ^ 64 →
    ∃ stats, metrics.stats? stage = some stats ∧ Machine.stats samples = .ok stats ∧
      IsSummary (samples.map UInt64.toNat) stats

theorem stats?_of_samples? {metrics : Metrics} {samples : Samples}
    (found : metrics.samples? stage = some samples) :
    metrics.stats? stage = some samples.stats := by
  rw [stats?, found]
  rfl

/-- After any number of steps a record holds the latest times of each stage and sums them up. Of the
times that are held only their number and sizes matter for that, and not their order. -/
theorem after_holdsRecent (steps : List Step) :
    HoldsRecent steps (after steps) ∧
      ∀ (steps' : List Step) (stage stage' : String) (samples samples' : Samples),
        (after steps).samples? stage = some samples →
        (after steps').samples? stage' = some samples' → samples.Perm samples' →
        (after steps).stats? stage = (after steps').stats? stage' := by
  refine ⟨⟨?_, fun stage => mem_stages_after stage steps, pairwise_stages_after steps, ?_, ?_⟩, ?_⟩
  · intro stage
    rw [samples?_after]
    unfold Samples.kept
    split
    · rfl
    · rw [Option.map_some, Samples.map_toNat_window]
  · intro stage
    rw [stats?, Option.isSome_map, samples?_after, Samples.isSome_kept]
  · intro stage samples found small
    refine ⟨samples.stats, stats?_of_samples? stage found, Machine.stats_eq small, ?_⟩
    exact Samples.isSummary_stats (Samples.ne_nil_of_kept (samples?_after stage steps ▸ found))
  · intro steps' stage stage' samples samples' found found' perm
    rw [stats?_of_samples? stage found, stats?_of_samples? stage' found',
      Samples.stats_of_perm perm]

/-- A stage that was timed before a reset and three times after it, among other things. -/
theorem after_holdsRecent_interleaved :
    ∃ stats, (after [.time "merge" 5 0, .reset, .time "merge" 0 150999, .time "decode" 1 0,
        .time "merge" 0 100000, .count .decodedTokens 3, .time "merge" 0 200000]).stats? "merge" =
        some stats ∧ IsSummary [150, 100, 200] stats := by
  obtain ⟨stats, found, -, summary⟩ := (after_holdsRecent [.time "merge" 5 0, .reset,
    .time "merge" 0 150999, .time "decode" 1 0, .time "merge" 0 100000, .count .decodedTokens 3,
    .time "merge" 0 200000]).1.stats_isSummary "merge" [150, 100, 200] (by decide) (by decide)
  exact ⟨stats, found, summary⟩

end Metrics

end TokenMarkup
