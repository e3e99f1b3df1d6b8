import Mathlib.Data.List.Induction
import TokenMarkup.Fault

/-!
# Steps that may fail

A run of steps ends well if and only if each of them does, and its fault is the fault of the first
that does not. For a run along a list that is `FirstFault`.
-/

namespace TokenMarkup

variable {α β : Type}

section

variable {ε : Type} {step : Except ε α} {fault : ε}

theorem bind_eq_ok_iff {next : α → Except ε β} {result : β} :
    step >>= next = .ok result ↔ ∃ value, step = .ok value ∧ next value = .ok result := by
  cases step <;> simp [bind, Except.bind]

theorem bind_eq_error_iff {next : α → Except ε β} :
    step >>= next = .error fault ↔
      step = .error fault ∨ ∃ value, step = .ok value ∧ next value = .error fault := by
  cases step <;> simp [bind, Except.bind]

theorem map_eq_ok_iff {effect : α → β} {result : β} :
    effect <$> step = .ok result ↔ ∃ value, step = .ok value ∧ effect value = result := by
  cases step <;> simp [Functor.map, Except.map]

theorem map_eq_error_iff {effect : α → β} :
    effect <$> step = .error fault ↔ step = .error fault := by
  cases step <;> simp [Functor.map, Except.map]

end

/-! ## Runs along a list -/

variable {fault : Fault}

/-- Whether `fault` is the fault of the first item of a list that is at fault: what stands in front
of that item is sound, and coming behind it the item is faulty. -/
def FirstFault (sound : List α → Prop) (faulty : List α → α → Fault → Prop) (items : List α)
    (fault : Fault) : Prop :=
  ∃ before item after, items = before ++ item :: after ∧ sound before ∧ faulty before item fault

theorem not_firstFault_nil {sound : List α → Prop} {faulty : List α → α → Fault → Prop} :
    ¬ FirstFault sound faulty [] fault := by
  rintro ⟨before, item, after, same, -⟩
  simp at same

/-- The first item is at fault, or it is sound and the fault lies behind it. -/
theorem firstFault_cons_iff {sound : List α → Prop} {faulty : List α → α → Fault → Prop}
    {first : α} {rest : List α} :
    FirstFault sound faulty (first :: rest) fault ↔
      sound [] ∧ faulty [] first fault ∨
        FirstFault (fun before => sound (first :: before)) (fun before => faulty (first :: before))
          rest fault := by
  constructor
  · rintro ⟨before, item, after, same, front, wrong⟩
    cases before with
    | nil =>
        obtain ⟨rfl, rfl⟩ := List.cons.inj same
        exact .inl ⟨front, wrong⟩
    | cons _ before =>
        obtain ⟨rfl, rfl⟩ := List.cons.inj same
        exact .inr ⟨before, item, after, rfl, front, wrong⟩
  · rintro (⟨front, wrong⟩ | ⟨before, item, after, rfl, front, wrong⟩)
    · exact ⟨[], first, rest, rfl, front, wrong⟩
    · exact ⟨first :: before, item, after, rfl, front, wrong⟩

theorem firstFault_and_iff {p : Prop} {sound : List α → Prop} {faulty : List α → α → Fault → Prop}
    {items : List α} :
    FirstFault (fun before => p ∧ sound before) faulty items fault ↔
      p ∧ FirstFault sound faulty items fault := by
  constructor
  · rintro ⟨before, item, after, same, ⟨holds, front⟩, wrong⟩
    exact ⟨holds, before, item, after, same, front, wrong⟩
  · rintro ⟨holds, before, item, after, same, front, wrong⟩
    exact ⟨before, item, after, same, ⟨holds, front⟩, wrong⟩

/-- An item of a list that has one more item at its end is an item of the list, or that one. -/
theorem concat_eq_append_cons_iff {items before after : List α} {last item : α} :
    items ++ [last] = before ++ item :: after ↔
      (∃ rest, items = before ++ item :: rest ∧ after = rest ++ [last]) ∨
        items = before ∧ last = item ∧ after = [] := by
  constructor
  · intro same
    rcases List.eq_nil_or_concat after with rfl | ⟨rest, other, rfl⟩
    · obtain ⟨rfl, single⟩ := List.append_inj' same rfl
      exact .inr ⟨rfl, List.singleton_inj.mp single, rfl⟩
    · rw [List.concat_eq_append, ← List.cons_append, ← List.append_assoc] at same
      obtain ⟨rfl, single⟩ := List.append_inj' same rfl
      exact .inl ⟨rest, rfl, by rw [List.concat_eq_append, single]⟩
  · rintro (⟨rest, rfl, rfl⟩ | ⟨rfl, rfl, rfl⟩)
    · simp
    · rfl

/-- The last item is at fault behind all the others, or the fault lies in front of it. -/
theorem firstFault_concat_iff {sound : List α → Prop} {faulty : List α → α → Fault → Prop}
    {items : List α} {last : α} :
    FirstFault sound faulty (items ++ [last]) fault ↔
      FirstFault sound faulty items fault ∨ sound items ∧ faulty items last fault := by
  constructor
  · rintro ⟨before, item, after, same, front, wrong⟩
    rcases concat_eq_append_cons_iff.mp same with ⟨rest, rfl, -⟩ | ⟨rfl, rfl, -⟩
    · exact .inl ⟨before, item, rest, rfl, front, wrong⟩
    · exact .inr ⟨front, wrong⟩
  · rintro (⟨before, item, after, rfl, front, wrong⟩ | ⟨front, wrong⟩)
    · exact ⟨before, item, after ++ [last], by simp, front, wrong⟩
    · exact ⟨items, last, [], rfl, front, wrong⟩

/-- A run that takes one step for each item fails where the first of these steps does. -/
theorem eq_error_iff_firstFault {γ : Type} (run : List α → Except Fault β)
    {step : List α → α → Except Fault γ} {join : β → γ → β} (begins : ∃ value, run [] = .ok value)
    (continues : ∀ before item, run (before ++ [item]) = do
      let value ← run before
      join value <$> step before item) {items : List α} :
    run items = .error fault ↔
      FirstFault (fun before => ∃ value, run before = .ok value)
        (fun before item fault => step before item = .error fault) items fault := by
  induction items using List.reverseRecOn with
  | nil =>
      obtain ⟨value, begun⟩ := begins
      rw [begun]
      exact iff_of_false nofun not_firstFault_nil
  | append_singleton items last ih =>
      rw [continues, bind_eq_error_iff, ih, firstFault_concat_iff]
      simp only [map_eq_error_iff, exists_and_right]

/-- The first fault by the number of its item. -/
theorem firstFault_iff_getElem? {sound : List α → Prop} {faulty : List α → α → Fault → Prop}
    {items : List α} :
    FirstFault sound faulty items fault ↔
      ∃ k item, items[k]? = some item ∧ sound (items.take k) ∧
        faulty (items.take k) item fault := by
  constructor
  · rintro ⟨before, item, after, rfl, front, wrong⟩
    refine ⟨before.length, item, by simp, ?_⟩
    rw [List.take_left]
    exact ⟨front, wrong⟩
  · rintro ⟨k, item, found, front, wrong⟩
    obtain ⟨inside, rfl⟩ := List.getElem?_eq_some_iff.mp found
    refine ⟨items.take k, items[k], items.drop (k + 1), ?_, front, wrong⟩
    rw [List.getElem_cons_drop, List.take_append_drop]

/-- Where the outcome of a check does not depend on what was gathered before, the fault of a run is
that of the first item whose check fails. -/
theorem foldlM_map_eq_error_iff {γ : Type} {check : α → Except Fault γ} {gather : β → γ → β}
    {state : β} {items : List α} :
    items.foldlM (fun state item => gather state <$> check item) state = .error fault ↔
      FirstFault (fun before => ∀ earlier ∈ before, ∃ value, check earlier = .ok value)
        (fun _ item fault => check item = .error fault) items fault := by
  induction items generalizing state with
  | nil => exact iff_of_false nofun not_firstFault_nil
  | cons first rest ih =>
      rw [List.foldlM_cons, bind_eq_error_iff, map_eq_error_iff, firstFault_cons_iff]
      simp only [List.forall_mem_cons, firstFault_and_iff, map_eq_ok_iff]
      constructor
      · rintro (failed | ⟨_, ⟨value, done, -⟩, later⟩)
        · exact .inl ⟨by simp, failed⟩
        · exact .inr ⟨⟨value, done⟩, ih.mp later⟩
      · rintro (⟨-, failed⟩ | ⟨⟨value, done⟩, later⟩)
        · exact .inl failed
        · exact .inr ⟨_, ⟨value, done, rfl⟩, ih.mpr later⟩

end TokenMarkup
