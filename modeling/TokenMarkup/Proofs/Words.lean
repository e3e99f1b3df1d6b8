import TokenMarkup.Proofs.Boundary

/-!
# Lines on a machine with words

A machine counts in words of 64 bits. There a sum that is no word, a difference below zero, an index
behind the end of a list and a range of bytes that cuts a character in two have no result: the
operation traps. `Machine.add`, `mul`, `sub`, `entry`, `tailFrom` and `cut` are the operations that
can. With them a line is measured, its boundaries are counted anew and parts are cut out of it, unit
by unit as a machine does, and for a line of which a word can count the bytes nothing traps:
`measure_eq`, `convert_eq` and `slice_eq` say that each such run is the run without words.
-/

namespace TokenMarkup

namespace Machine

/-- Why an operation of the machine has no result. -/
inductive Trap where
  /-- A sum or a product is no word. -/
  | overflow
  /-- A difference is below zero. -/
  | underflow
  /-- A list ends in front of an index. -/
  | index
  /-- A range of bytes ends before it starts, or an end of it is inside a character. -/
  | range
deriving DecidableEq, Repr

/-- Why a run ends without a result: what it was given is at fault, or an operation trapped. -/
inductive Halt where
  | fault (fault : Fault)
  | trap (trap : Trap)
deriving DecidableEq, Repr

/-- A run on the machine. -/
abbrev Run (α : Type) := Except Halt α

namespace Run

variable {α β : Type}

/-- The run in which nothing traps. -/
def of (outcome : Except Fault α) : Run α := outcome.mapError .fault

/-- Says on which line a run was working when it came to a fault. -/
def locate (row : Nat) (run : Run α) : Run α :=
  run.mapError fun
    | .fault fault => .fault (fault.onLine row)
    | .trap trap => .trap trap

@[simp] theorem of_ok (value : α) : of (.ok value) = .ok value := rfl

@[simp] theorem of_error (fault : Fault) :
    (of (.error fault) : Run α) = .error (.fault fault) := rfl

@[simp] theorem ok_bind (value : α) (after : α → Run β) :
    (.ok value : Run α) >>= after = after value := rfl

theorem locate_of (row : Nat) (outcome : Except Fault α) :
    (of outcome).locate row = of (TokenMarkup.locate row outcome) := by
  cases outcome <;> rfl

theorem of_ne_trap (outcome : Except Fault α) (trap : Trap) : of outcome ≠ .error (.trap trap) := by
  cases outcome <;> simp

/-- Two steps in which nothing traps. The second one only has to do well on what the first gives. -/
theorem bind_of {step : Except Fault α} {next : α → Except Fault β} {run : Run α}
    {after : α → Run β} (first : run = of step)
    (second : ∀ value, step = .ok value → after value = of (next value)) :
    run >>= after = of (step >>= next) := by
  subst first
  cases step with
  | error fault => rfl
  | ok value => exact second value rfl

theorem map_of (effect : α → β) (outcome : Except Fault α) :
    effect <$> of outcome = of (effect <$> outcome) := by
  cases outcome <;> rfl

theorem foldlM_of {list : List α} {step : β → α → Except Fault β} {run : β → α → Run β}
    (each : ∀ value ∈ list, ∀ state, run state value = of (step state value)) (state : β) :
    list.foldlM run state = of (list.foldlM step state) := by
  induction list generalizing state with
  | nil => rfl
  | cons value rest ih =>
      rw [List.foldlM_cons, List.foldlM_cons]
      refine bind_of (each value List.mem_cons_self state) fun next _ => ?_
      exact ih (fun later member => each later (List.mem_cons_of_mem _ member)) next

end Run

/-! ## Operations -/

/-- The sum of two words. -/
def add (a b : Nat) : Run Nat :=
  if a + b < UInt64.size then .ok (a + b) else .error (.trap .overflow)

/-- The product of two words. -/
def mul (a b : Nat) : Run Nat :=
  if a * b < UInt64.size then .ok (a * b) else .error (.trap .overflow)

/-- The difference of two words. -/
def sub (a b : Nat) : Run Nat :=
  if b ≤ a then .ok (a - b) else .error (.trap .underflow)

/-- The entry of a list at an index. -/
def entry {α : Type} (list : List α) (index : Nat) : Run α :=
  match list[index]? with
  | some value => .ok value
  | none => .error (.trap .index)

/-- The entries of a list from an index on. The index may be the length of the list. -/
def tailFrom {α : Type} (list : List α) (index : Nat) : Run (List α) :=
  if index ≤ list.length then .ok (list.drop index) else .error (.trap .index)

/-- The text between two byte indices of a line. -/
def cut (line : Text) (start stop : Nat) : Run Text :=
  if start ≤ stop ∧ PositionEncoding.isByteBoundary line start ∧
      PositionEncoding.isByteBoundary line stop then
    .ok (PositionEncoding.utf8.take (stop - start) (PositionEncoding.utf8.drop start line))
  else .error (.trap .range)

theorem add_eq {a b : Nat} (room : a + b < UInt64.size) : add a b = .ok (a + b) := if_pos room

theorem mul_eq {a b : Nat} (room : a * b < UInt64.size) : mul a b = .ok (a * b) := if_pos room

theorem sub_eq {a b : Nat} (enough : b ≤ a) : sub a b = .ok (a - b) := if_pos enough

theorem entry_eq {α : Type} {list : List α} {index : Nat} {value : α}
    (found : list[index]? = some value) : entry list index = .ok value := by
  rw [entry, found]

theorem tailFrom_eq {α : Type} {list : List α} {index : Nat} (inside : index ≤ list.length) :
    tailFrom list index = .ok (list.drop index) := if_pos inside

example : add 18446744073709551615 1 = .error (.trap .overflow) := by decide
example : cut ['a', 'é'] 1 2 = .error (.trap .range) := by decide

/-- A sum in which nothing traps. The sum of a part is never larger than the whole. -/
theorem foldlM_add_eq {α : Type} (weight : α → Nat) (list : List α) (total : Nat)
    (room : total + list.foldr (fun value sum => weight value + sum) 0 < UInt64.size) :
    list.foldlM (fun total value => add total (weight value)) total =
      (.ok (total + list.foldr (fun value sum => weight value + sum) 0) : Run Nat) := by
  induction list generalizing total with
  | nil => rfl
  | cons value rest ih =>
      rw [List.foldr_cons, ← Nat.add_assoc] at room ⊢
      rw [List.foldlM_cons, add_eq (by omega)]
      exact ih _ room

end Machine

namespace PositionEncoding

/-- No encoding takes more units for a character than there are bytes. -/
theorem width_le_utf8 (encoding : PositionEncoding) (c : Char) :
    encoding.width c ≤ utf8.width c := by
  have atLeastOne : 0 < c.utf8Size := c.utf8Size_pos
  cases encoding with
  | utf8 => exact Nat.le_refl _
  | utf32 => exact atLeastOne
  | utf16 =>
      simp only [width]
      split
      · exact atLeastOne
      · next large =>
          have beyond : ∀ bound : UInt32, bound.toNat < 0x10000 → ¬ c.val ≤ bound := by
            intro bound low
            rw [UInt32.le_iff_toNat_le]
            exact fun le => large (Nat.lt_of_le_of_lt le low)
          rw [Char.utf8Size]
          simp [beyond]

theorem length_le_utf8 (encoding : PositionEncoding) (line : Text) :
    encoding.length line ≤ utf8.length line := by
  induction line with
  | nil => exact Nat.le_refl _
  | cons c rest ih => exact Nat.add_le_add (encoding.width_le_utf8 c) ih

end PositionEncoding

namespace Machine

/-! ## Measuring and converting -/

/-- How many units a line takes, added up character by character. -/
def measure (encoding : PositionEncoding) (line : Text) : Run Nat :=
  line.foldlM (fun units c => add units (encoding.width c)) 0

/-- Reports an index that is no boundary of the line, for which the line is measured. -/
def noBoundary {α : Type} (encoding : PositionEncoding) (line : Text) (index : Nat) : Run α := do
  let length ← measure encoding line
  throw (.fault (.encodingBoundary none index encoding length))

/-- Goes through a line until `index` units of `source` are behind, and counts the units of both
encodings. -/
def convertFrom (source target : PositionEncoding) (index : Nat) :
    (passed counted : Nat) → Text → Run (Nat × Nat)
  | passed, counted, [] => .ok (passed, counted)
  | passed, counted, c :: rest =>
    if index ≤ passed then .ok (passed, counted)
    else do
      let passed ← add passed (source.width c)
      let counted ← add counted (target.width c)
      convertFrom source target index passed counted rest

/-- Counts a boundary of the line in another encoding. -/
def convert (line : Text) (index : Nat) (source target : PositionEncoding) : Run Nat := do
  let (passed, counted) ← convertFrom source target index 0 0 line
  if passed = index then return counted else noBoundary source line index

/-- The byte index of a boundary. -/
def byteOffset (encoding : PositionEncoding) (line : Text) (index : Nat) : Run Nat :=
  if encoding = .utf8 then
    if PositionEncoding.isByteBoundary line index then .ok index else noBoundary .utf8 line index
  else convert line index encoding .utf8

/-- The part of the line between two boundaries. -/
def slice (encoding : PositionEncoding) (line : Text) (start stop : Nat) : Run Text := do
  let startByte ← byteOffset encoding line start
  let stopByte ← byteOffset encoding line stop
  if stopByte < startByte then noBoundary encoding line stop else cut line startByte stopByte

section Lines

variable {source target encoding : PositionEncoding} {line : Text}

theorem measure_eq (held : PositionEncoding.utf8.length line < UInt64.size) :
    measure encoding line = .ok (encoding.length line) := by
  have room := encoding.length_le_utf8 line
  have sum := foldlM_add_eq encoding.width line 0
    (by rw [Nat.zero_add]; exact Nat.lt_of_le_of_lt room held)
  rw [Nat.zero_add] at sum
  exact sum

theorem noBoundary_eq {α : Type} (held : PositionEncoding.utf8.length line < UInt64.size)
    (index : Nat) :
    (noBoundary encoding line index : Run α) =
      .of (.error (encoding.boundaryFault line index)) := by
  rw [noBoundary, measure_eq held]
  rfl

/-- Behind the index nothing more is counted. -/
theorem convertFrom_behind {index passed : Nat} (behind : index ≤ passed) (counted : Nat) :
    convertFrom source target index passed counted line = .ok (passed, counted) := by
  cases line with
  | nil => rfl
  | cons c rest => exact if_pos behind

/-- The walk ends at the index exactly if a boundary is there, and has then counted the units of
`target` in front of it. -/
theorem convertFrom_spec {index passed counted : Nat} (before : passed ≤ index)
    (room : passed + source.length line < UInt64.size)
    (room' : counted + target.length line < UInt64.size) :
    ∃ reached result, convertFrom source target index passed counted line = .ok (reached, result) ∧
      (PositionEncoding.boundary? source target line (index - passed)).map (counted + ·) =
        if reached = index then some result else none := by
  induction line generalizing passed counted with
  | nil =>
      refine ⟨passed, counted, rfl, ?_⟩
      obtain rfl | ahead := Nat.eq_or_lt_of_le before
      · simp [PositionEncoding.boundary?]
      · obtain ⟨rest, left⟩ := Nat.exists_eq_add_one.mpr (Nat.sub_pos_of_lt ahead)
        rw [left, if_neg (Nat.ne_of_lt ahead)]
        rfl
  | cons c rest ih =>
      obtain rfl | ahead := Nat.eq_or_lt_of_le before
      · refine ⟨passed, counted, convertFrom_behind (Nat.le_refl _) counted, ?_⟩
        simp [PositionEncoding.boundary?]
      · rw [PositionEncoding.length_cons, ← Nat.add_assoc] at room room'
        obtain ⟨units, left⟩ := Nat.exists_eq_add_one.mpr (Nat.sub_pos_of_lt ahead)
        have step : convertFrom source target index passed counted (c :: rest) =
            convertFrom source target index (passed + source.width c)
              (counted + target.width c) rest := by
          rw [convertFrom, if_neg (Nat.not_le_of_lt ahead), add_eq (by omega), add_eq (by omega)]
          rfl
        rw [step, left, PositionEncoding.boundary?, ← left]
        split
        · next whole =>
            obtain ⟨reached, result, walked, told⟩ := ih (by omega) room room'
            refine ⟨reached, result, walked, ?_⟩
            rw [← told, Nat.sub_add_eq, Option.map_map]
            congr 1
            funext more
            exact (Nat.add_assoc counted _ more).symm
        · next inside =>
            -- The index is inside this character, and the walk ends behind it.
            refine ⟨_, _, convertFrom_behind (by omega) _, ?_⟩
            rw [if_neg (by omega)]
            rfl

theorem convert_eq (held : PositionEncoding.utf8.length line < UInt64.size) (index : Nat) :
    convert line index source target =
      .of (PositionEncoding.convert line index source target) := by
  have room := source.length_le_utf8 line
  have room' := target.length_le_utf8 line
  obtain ⟨reached, result, walked, told⟩ :=
    convertFrom_spec (Nat.zero_le index) (by omega : 0 + source.length line < UInt64.size)
      (by omega : 0 + target.length line < UInt64.size)
  rw [convert, walked, PositionEncoding.convert]
  simp only [Nat.sub_zero, Nat.zero_add, Option.map_id_fun', id] at told
  rw [told]
  by_cases found : reached = index
  · simp [found, bind, Except.bind, pure, Except.pure]
  · simp [found, bind, Except.bind, noBoundary_eq held]

theorem byteOffset_eq (held : PositionEncoding.utf8.length line < UInt64.size) (index : Nat) :
    byteOffset encoding line index = .of (encoding.byteOffset line index) := by
  unfold byteOffset PositionEncoding.byteOffset
  split
  · split
    · rfl
    · exact noBoundary_eq held index
  · exact convert_eq held index

theorem isByteBoundary_of_byteOffset {index result : Nat}
    (found : encoding.byteOffset line index = .ok result) :
    PositionEncoding.isByteBoundary line result := by
  obtain ⟨before, after, same, -, measured⟩ := PositionEncoding.byteOffset_eq_ok_iff.mp found
  exact PositionEncoding.isByteBoundary_iff.mpr ⟨before, after, same, measured⟩

/-- Byte offsets are character boundaries, so that the bytes between them can be cut out. -/
theorem slice_eq (held : PositionEncoding.utf8.length line < UInt64.size) (start stop : Nat) :
    slice encoding line start stop = .of (encoding.slice line start stop) := by
  unfold slice PositionEncoding.slice
  refine Run.bind_of (byteOffset_eq held start) fun startByte started => ?_
  refine Run.bind_of (byteOffset_eq held stop) fun stopByte stopped => ?_
  split
  · exact noBoundary_eq held stop
  · next forward =>
      have placed := isByteBoundary_of_byteOffset started
      have placed' := isByteBoundary_of_byteOffset stopped
      exact if_pos ⟨Nat.le_of_not_lt forward, placed, placed'⟩

end Lines

end Machine

end TokenMarkup
