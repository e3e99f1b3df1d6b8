import Mathlib.Data.List.Infix
import TokenMarkup.Boundary

/-!
# Boundaries are ends of prefixes

A boundary of a line is where a prefix of it ends. Every operation of this library on positions is
put in these terms once, and nothing behind this module opens it again:

* `convert_eq_ok_iff`: conversion measures one prefix in two encodings;
* `isByteBoundary_iff`: the bytes alone tell the boundaries;
* `byteOffset_eq_ok_iff`, `slice_eq_ok_iff`: a slice is what stands between two prefixes;
* `convert_eq_error`, `slice_eq_error`: all that fails is an index that ends no prefix.
-/

namespace TokenMarkup.PositionEncoding

/-- Whether some first characters of the line take exactly `index` units. -/
def IsBoundary (encoding : PositionEncoding) (line : Text) (index : Nat) : Prop :=
  ∃ before after, line = before ++ after ∧ encoding.length before = index

/-! ## Lengths of prefixes -/

@[simp] theorem length_append (encoding : PositionEncoding) (before after : Text) :
    encoding.length (before ++ after) = encoding.length before + encoding.length after := by
  induction before with
  | nil => simp
  | cons c rest ih => simp [ih, Nat.add_assoc]

@[simp] theorem length_eq_zero {encoding : PositionEncoding} {line : Text} :
    encoding.length line = 0 ↔ line = [] := by
  cases line with
  | nil => simp
  | cons c rest =>
      have positive := encoding.width_pos c
      simp only [length_cons, reduceCtorEq, iff_false]
      omega

theorem isBoundary_zero (encoding : PositionEncoding) (line : Text) :
    encoding.IsBoundary line 0 := ⟨[], line, rfl, rfl⟩

theorem isBoundary_length (encoding : PositionEncoding) (line : Text) :
    encoding.IsBoundary line (encoding.length line) := ⟨line, [], by simp, rfl⟩

/-- Of two prefixes of a line, the one that takes no more units is a prefix of the other. -/
theorem exists_append_of_length_le {encoding : PositionEncoding} {a a' b b' : Text}
    (same : a ++ a' = b ++ b') (le : encoding.length a ≤ encoding.length b) :
    ∃ between, b = a ++ between ∧ a' = between ++ b' := by
  rcases List.append_eq_append_iff.mp same with ⟨between, rfl, rfl⟩ | ⟨between, rfl, rfl⟩
  · exact ⟨between, rfl, rfl⟩
  · rw [length_append] at le
    have empty : encoding.length between = 0 := by omega
    rw [length_eq_zero.mp empty]
    exact ⟨[], by simp, by simp⟩

/-- A prefix of a line is told by its length, in whatever units. -/
theorem append_inj_of_length_eq {encoding : PositionEncoding} {a a' b b' : Text}
    (same : a ++ a' = b ++ b') (eq : encoding.length a = encoding.length b) :
    a = b ∧ a' = b' := by
  obtain ⟨between, rfl, rfl⟩ := exists_append_of_length_le same (Nat.le_of_eq eq)
  rw [length_append] at eq
  have empty : encoding.length between = 0 := by omega
  rw [length_eq_zero.mp empty]
  exact ⟨by simp, by simp⟩

/-- What one encoding says of the order of two boundaries, the others say as well. -/
theorem length_le_length_iff (source target : PositionEncoding) {a a' b b' : Text}
    (same : a ++ a' = b ++ b') :
    source.length a ≤ source.length b ↔ target.length a ≤ target.length b := by
  constructor
  · intro le
    obtain ⟨between, rfl, -⟩ := exists_append_of_length_le same le
    simp
  · intro le
    obtain ⟨between, rfl, -⟩ := exists_append_of_length_le same le
    simp

/-! ## Conversion -/

theorem boundary?_eq_some_iff {source target : PositionEncoding} {line : Text}
    {index result : Nat} :
    boundary? source target line index = some result ↔
      ∃ before after, line = before ++ after ∧ source.length before = index ∧
        target.length before = result := by
  -- A character that is passed takes its width off the index and adds its width to the result.
  induction line generalizing index result with
  | nil =>
      cases index with
      | zero => simp [boundary?, eq_comm]
      | succ index => simp [boundary?]
  | cons c rest ih =>
      cases index with
      | zero =>
          simp only [boundary?, Option.some.injEq, length_eq_zero]
          constructor
          · rintro rfl
            exact ⟨[], c :: rest, rfl, rfl, rfl⟩
          · rintro ⟨before, after, -, rfl, rfl⟩
            rfl
      | succ index =>
          simp only [boundary?]
          constructor
          · intro found
            split at found
            · next fits =>
                obtain ⟨tail, located, rfl⟩ := Option.map_eq_some_iff.mp found
                obtain ⟨before, after, rfl, measured, rfl⟩ := ih.mp located
                exact ⟨c :: before, after, rfl, by simp [measured]; omega, by simp⟩
            · cases found
          · rintro ⟨before, after, same, measured, rfl⟩
            cases before with
            | nil => simp at measured
            | cons d before =>
                obtain ⟨rfl, rfl⟩ := List.cons.inj same
                rw [length_cons] at measured
                have located := ih.mpr ⟨before, after, rfl, rfl, rfl⟩
                rw [if_pos (by omega), ← measured, Nat.add_sub_cancel_left, located]
                rfl

theorem convert_eq_ok_iff {source target : PositionEncoding} {line : Text} {index result : Nat} :
    convert line index source target = .ok result ↔
      ∃ before after, line = before ++ after ∧ source.length before = index ∧
        target.length before = result := by
  rw [← boundary?_eq_some_iff, convert]
  split <;> simp_all

theorem convert_eq_error {source target : PositionEncoding} {line : Text} {index : Nat}
    (misplaced : ¬ source.IsBoundary line index) :
    convert line index source target = .error (source.boundaryFault line index) := by
  rw [convert]
  split
  · next result found =>
      obtain ⟨before, after, same, measured, -⟩ := boundary?_eq_some_iff.mp found
      exact absurd ⟨before, after, same, measured⟩ misplaced
  · rfl

/-! ## Bytes -/

theorem opensChar_ofNat {n : Nat} (small : n < 256) :
    opensChar (UInt8.ofNat n) ↔ n < 0x80 ∨ 0xC0 ≤ n := by
  simp only [opensChar, Bool.or_eq_true, decide_eq_true_eq, UInt8.lt_iff_toNat_lt,
    UInt8.le_iff_toNat_le, UInt8.toNat_ofNat', UInt8.reduceToNat]
  omega

/-- The first byte of a character opens it, and no other one does. -/
theorem utf8EncodeChar_eq_cons (c : Char) :
    ∃ lead continuation, String.utf8EncodeChar c = lead :: continuation ∧
      opensChar lead ∧ ∀ byte ∈ continuation, ¬ opensChar byte := by
  have mod (n : Nat) : n % 0x40 + 0x80 < 256 := by omega
  fun_cases String.utf8EncodeChar c with
  | case1 v ascii =>
      exact ⟨_, _, rfl, (opensChar_ofNat (by omega)).mpr (by omega), by simp⟩
  | case2 v _ two =>
      refine ⟨_, _, rfl, (opensChar_ofNat (by omega)).mpr (by omega), ?_⟩
      simp only [List.mem_cons, List.not_mem_nil, or_false, forall_eq, opensChar_ofNat (mod _)]
      omega
  | case3 v _ _ three =>
      refine ⟨_, _, rfl, (opensChar_ofNat (by omega)).mpr (by omega), ?_⟩
      simp only [List.mem_cons, List.not_mem_nil, or_false, forall_eq_or_imp, forall_eq,
        opensChar_ofNat (mod _)]
      omega
  | case4 v _ _ four =>
      refine ⟨_, _, rfl, (opensChar_ofNat (by omega)).mpr (by omega), ?_⟩
      simp only [List.mem_cons, List.not_mem_nil, or_false, forall_eq_or_imp, forall_eq,
        opensChar_ofNat (mod _)]
      omega

theorem isBoundary_cons_iff {encoding : PositionEncoding} {c : Char} {rest : Text} {index : Nat} :
    encoding.IsBoundary (c :: rest) index ↔
      index = 0 ∨ encoding.width c ≤ index ∧
        encoding.IsBoundary rest (index - encoding.width c) := by
  constructor
  · rintro ⟨before, after, same, rfl⟩
    cases before with
    | nil => exact .inl rfl
    | cons d before =>
        obtain ⟨rfl, rfl⟩ := List.cons.inj same
        exact .inr ⟨by simp, before, after, rfl, by simp⟩
  · rintro (rfl | ⟨fits, before, after, rfl, measured⟩)
    · exact isBoundary_zero encoding _
    · exact ⟨c :: before, after, rfl, by rw [length_cons, measured]; omega⟩

/-- The bytes of a line tell its boundaries: what follows one is a byte that opens a character, or
nothing at all. -/
theorem isByteBoundary_iff {line : Text} {index : Nat} :
    isByteBoundary line index ↔ utf8.IsBoundary line index := by
  induction line generalizing index with
  | nil =>
      have end_only : isByteBoundary [] index = (index == 0) := rfl
      rw [end_only, beq_iff_eq]
      constructor
      · rintro rfl
        exact isBoundary_zero utf8 []
      · rintro ⟨before, after, same, rfl⟩
        rw [(List.append_eq_nil_iff.mp same.symm).1, length_nil]
  | cons c rest ih =>
      obtain ⟨lead, continuation, encoded, opens, continues⟩ := utf8EncodeChar_eq_cons c
      have size : continuation.length + 1 = utf8.width c := by
        rw [width, ← String.length_utf8EncodeChar, encoded, List.length_cons]
      have split : bytes (c :: rest) = lead :: (continuation ++ bytes rest) := by
        simp [bytes, encoded]
      rw [isBoundary_cons_iff, ← ih, isByteBoundary, split]
      cases index with
      | zero => simpa using opens
      | succ index =>
          rw [List.getElem?_cons_succ]
          by_cases inside : index < continuation.length
          · -- Inside the first character stand only bytes that open nothing.
            rw [List.getElem?_append_left inside, List.getElem?_eq_getElem inside]
            exact iff_of_false (continues _ (List.getElem_mem inside)) (by omega)
          · rw [List.getElem?_append_right (by omega), isByteBoundary]
            have shift : index + 1 - utf8.width c = index - continuation.length := by omega
            rw [shift]
            split
            · simp; omega
            · simp; omega

/-! ## Offsets and slices -/

theorem byteOffset_eq_ok_iff {encoding : PositionEncoding} {line : Text} {index result : Nat} :
    encoding.byteOffset line index = .ok result ↔
      ∃ before after, line = before ++ after ∧ encoding.length before = index ∧
        utf8.length before = result := by
  rw [byteOffset]
  split
  · next isUtf8 =>
      subst isUtf8
      rw [ite_eq_iff]
      simp only [isByteBoundary_iff, Except.ok.injEq, reduceCtorEq, and_false, or_false]
      constructor
      · rintro ⟨⟨before, after, same, measured⟩, rfl⟩
        exact ⟨before, after, same, measured, measured⟩
      · rintro ⟨before, after, same, rfl, rfl⟩
        exact ⟨⟨before, after, same, rfl⟩, rfl⟩
  · exact convert_eq_ok_iff

theorem byteOffset_eq_error {encoding : PositionEncoding} {line : Text} {index : Nat}
    (misplaced : ¬ encoding.IsBoundary line index) :
    encoding.byteOffset line index = .error (encoding.boundaryFault line index) := by
  rw [byteOffset]
  split
  · next isUtf8 =>
      subst isUtf8
      rw [if_neg (mt isByteBoundary_iff.mp misplaced)]
  · exact convert_eq_error misplaced

theorem drop_append (encoding : PositionEncoding) (before after : Text) :
    encoding.drop (encoding.length before) (before ++ after) = after := by
  induction before with
  | nil => simp [drop]
  | cons c rest ih =>
      obtain ⟨width, measured⟩ := Nat.exists_eq_add_one.mpr (encoding.width_pos c)
      have units : encoding.length (c :: rest) = width + encoding.length rest + 1 := by
        rw [length_cons, measured]
        omega
      rw [units, List.cons_append, drop, ← units, length_cons, Nat.add_sub_cancel_left, ih]

theorem take_append (encoding : PositionEncoding) (before after : Text) :
    encoding.take (encoding.length before) (before ++ after) = before := by
  induction before with
  | nil => simp [take]
  | cons c rest ih =>
      obtain ⟨width, measured⟩ := Nat.exists_eq_add_one.mpr (encoding.width_pos c)
      have units : encoding.length (c :: rest) = width + encoding.length rest + 1 := by
        rw [length_cons, measured]
        omega
      rw [units, List.cons_append, take, ← units, length_cons, Nat.add_sub_cancel_left, ih]

/-- The slice between two prefixes, one of which continues the other. -/
theorem slice_append (encoding : PositionEncoding) (before text after : Text) :
    encoding.slice (before ++ text ++ after) (encoding.length before)
      (encoding.length (before ++ text)) = .ok text := by
  have startByte : encoding.byteOffset (before ++ text ++ after) (encoding.length before) =
      .ok (utf8.length before) :=
    byteOffset_eq_ok_iff.mpr ⟨before, text ++ after, by simp, rfl, rfl⟩
  have stopByte : encoding.byteOffset (before ++ text ++ after) (encoding.length (before ++ text)) =
      .ok (utf8.length (before ++ text)) :=
    byteOffset_eq_ok_iff.mpr ⟨before ++ text, after, rfl, rfl, rfl⟩
  have forward : ¬ utf8.length (before ++ text) < utf8.length before := by simp
  rw [slice, startByte, stopByte]
  simp only [bind, Except.bind]
  rw [if_neg forward, length_append, Nat.add_sub_cancel_left, List.append_assoc, drop_append,
    take_append]

theorem slice_eq_error_start {encoding : PositionEncoding} {line : Text} {start stop : Nat}
    (misplaced : ¬ encoding.IsBoundary line start) :
    encoding.slice line start stop = .error (encoding.boundaryFault line start) := by
  rw [slice, byteOffset_eq_error misplaced]
  rfl

/-- With a good start, a slice fails only for its stop: that is no boundary, or lies in front. -/
theorem slice_eq_error_stop {encoding : PositionEncoding} {line : Text} {start stop : Nat}
    (placed : encoding.IsBoundary line start)
    (misplaced : encoding.IsBoundary line stop → stop < start) :
    encoding.slice line start stop = .error (encoding.boundaryFault line stop) := by
  obtain ⟨before, after, same, rfl⟩ := placed
  have startByte : encoding.byteOffset line (encoding.length before) = .ok (utf8.length before) :=
    byteOffset_eq_ok_iff.mpr ⟨before, after, same, rfl, rfl⟩
  rw [slice, startByte]
  by_cases placed : encoding.IsBoundary line stop
  · obtain ⟨before', after', same', rfl⟩ := placed
    have stopByte : encoding.byteOffset line (encoding.length before') =
        .ok (utf8.length before') :=
      byteOffset_eq_ok_iff.mpr ⟨before', after', same', rfl, rfl⟩
    have backward : utf8.length before' < utf8.length before := by
      have inFront := misplaced ⟨before', after', same', rfl⟩
      have order := length_le_length_iff encoding utf8 (same.symm.trans same')
      omega
    rw [stopByte]
    simp only [bind, Except.bind]
    rw [if_pos backward]
  · rw [byteOffset_eq_error placed]
    rfl

theorem slice_eq_ok_iff {encoding : PositionEncoding} {line text : Text} {start stop : Nat} :
    encoding.slice line start stop = .ok text ↔
      ∃ before after, line = before ++ text ++ after ∧ encoding.length before = start ∧
        encoding.length (before ++ text) = stop := by
  constructor
  · intro cut
    by_cases placed : encoding.IsBoundary line start
    · by_cases forward : encoding.IsBoundary line stop ∧ start ≤ stop
      · obtain ⟨before, after, rfl, rfl⟩ := placed
        obtain ⟨⟨before', after', same, rfl⟩, le⟩ := forward
        obtain ⟨between, rfl, rfl⟩ := exists_append_of_length_le same le
        rw [same, slice_append, Except.ok.injEq] at cut
        subst cut
        exact ⟨before, after', same, rfl, rfl⟩
      · rw [slice_eq_error_stop placed (by grind)] at cut
        cases cut
    · rw [slice_eq_error_start placed] at cut
      cases cut
  · rintro ⟨before, after, rfl, rfl, rfl⟩
    exact slice_append encoding before text after

end TokenMarkup.PositionEncoding
