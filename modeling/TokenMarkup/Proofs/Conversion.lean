import TokenMarkup.Proofs.Boundary

/-!
# Positions in several encodings

A boundary of a line has one count in each encoding. `PositionEncoding.convert` goes from one count
to the other along the prefix that ends there, so it can be turned round, taken in two steps, and
keeps the order (`convert_isCorrespondence`).

A byte index is checked in a way of its own, by looking at the bytes of the line. That check says
what conversion says (`byteOffset_utf8`), and so slices, which are cut out by byte indices, can be
described in the units of the caller alone (`slice_isCut`).
-/

namespace TokenMarkup.PositionEncoding

/-! ## Conversion -/

section Conversion

variable {line : Text} {source target : PositionEncoding} {index result : Nat}

theorem convert_append (source target : PositionEncoding) (before after : Text) :
    convert (before ++ after) (source.length before) source target = .ok (target.length before) :=
  convert_eq_ok_iff.mpr ⟨before, after, rfl, rfl, rfl⟩

theorem convert_length (source target : PositionEncoding) (line : Text) :
    convert line (source.length line) source target = .ok (target.length line) := by
  simpa using convert_append source target line []

theorem convert_eq_error_iff {fault : Fault} :
    convert line index source target = .error fault ↔
      ¬ source.IsBoundary line index ∧ fault = source.boundaryFault line index := by
  by_cases placed : source.IsBoundary line index
  · simp only [placed, not_true_eq_false, false_and, iff_false]
    obtain ⟨before, after, rfl, rfl⟩ := placed
    simp [convert_append]
  · rw [convert_eq_error placed]
    simp [placed, eq_comm]

theorem convert_self (converted : convert line index source target = .ok result) :
    convert line index source source = .ok index := by
  obtain ⟨before, after, rfl, rfl, rfl⟩ := convert_eq_ok_iff.mp converted
  exact convert_append source source before after

theorem convert_back (converted : convert line index source target = .ok result) :
    convert line result target source = .ok index := by
  obtain ⟨before, after, rfl, rfl, rfl⟩ := convert_eq_ok_iff.mp converted
  exact convert_append target source before after

theorem convert_onward (converted : convert line index source target = .ok result)
    (third : PositionEncoding) :
    convert line result target third = convert line index source third := by
  obtain ⟨before, after, rfl, rfl, rfl⟩ := convert_eq_ok_iff.mp converted
  rw [convert_append, convert_append]

/-- No two boundaries of a line have one count, and every encoding counts them in one order. -/
theorem convert_lt_iff {i i' j j' : Nat} (first : convert line i source target = .ok i')
    (second : convert line j source target = .ok j') : i < j ↔ i' < j' := by
  obtain ⟨before, after, same, rfl, rfl⟩ := convert_eq_ok_iff.mp first
  obtain ⟨before', after', same', rfl, rfl⟩ := convert_eq_ok_iff.mp second
  rw [← Nat.not_le, ← Nat.not_le,
    length_le_length_iff source target (same'.symm.trans same)]

end Conversion

/-- What conversion does on a line, from one encoding to another. -/
structure IsCorrespondence (line : Text) (source target : PositionEncoding) : Prop where
  /-- An index is converted if some first characters take that many units of `source`, and the
  result is what the same characters take in units of `target`. -/
  exact : ∀ index result, convert line index source target = .ok result ↔
    ∃ before after, line = before ++ after ∧ source.length before = index ∧
      target.length before = result
  self : ∀ index result, convert line index source target = .ok result →
    convert line index source source = .ok index
  back : ∀ index result, convert line index source target = .ok result →
    convert line result target source = .ok index
  onward : ∀ third index result, convert line index source target = .ok result →
    convert line result target third = convert line index source third
  order : ∀ i i' j j', convert line i source target = .ok i' →
    convert line j source target = .ok j' → (i < j ↔ i' < j')
  ends : convert line (source.length line) source target = .ok (target.length line)
  /-- Any other index is refused, with all that is known of it here. -/
  refused : ∀ index fault, convert line index source target = .error fault ↔
    (¬ ∃ before after, line = before ++ after ∧ source.length before = index) ∧
      fault = .encodingBoundary none index source (source.length line)

theorem convert_isCorrespondence (line : Text) (source target : PositionEncoding) :
    IsCorrespondence line source target where
  exact _ _ := convert_eq_ok_iff
  self _ _ := convert_self
  back _ _ := convert_back
  onward third _ _ converted := convert_onward converted third
  order _ _ _ _ := convert_lt_iff
  ends := convert_length source target line
  refused _ _ := convert_eq_error_iff

/-! ## Slices -/

section Slices

variable {encoding : PositionEncoding} {line text : Text} {start middle stop : Nat}

/-- The bytes of a line and the widths of its characters tell the same boundaries. -/
theorem byteOffset_utf8 (line : Text) (index : Nat) :
    utf8.byteOffset line index = convert line index utf8 utf8 := by
  by_cases placed : utf8.IsBoundary line index
  · obtain ⟨before, after, rfl, rfl⟩ := placed
    rw [convert_append]
    exact byteOffset_eq_ok_iff.mpr ⟨before, after, rfl, rfl, rfl⟩
  · rw [byteOffset_eq_error placed, convert_eq_error placed]

theorem slice_isOk_iff :
    (∃ text, encoding.slice line start stop = .ok text) ↔
      encoding.IsBoundary line start ∧ encoding.IsBoundary line stop ∧ start ≤ stop := by
  constructor
  · rintro ⟨text, cut⟩
    obtain ⟨before, after, rfl, rfl, rfl⟩ := slice_eq_ok_iff.mp cut
    exact ⟨⟨before, text ++ after, by simp, rfl⟩, ⟨before ++ text, after, rfl, rfl⟩, by simp⟩
  · rintro ⟨⟨before, after, rfl, rfl⟩, ⟨front, behind, same, rfl⟩, le⟩
    obtain ⟨text, rfl, rfl⟩ := exists_append_of_length_le same le
    exact ⟨text, slice_eq_ok_iff.mpr ⟨before, behind, by simp, rfl, rfl⟩⟩

theorem length_of_slice (cut : encoding.slice line start stop = .ok text) :
    encoding.length text = stop - start := by
  obtain ⟨before, after, -, rfl, rfl⟩ := slice_eq_ok_iff.mp cut
  rw [length_append, Nat.add_sub_cancel_left]

/-- A slice that begins where another one ended continues it. -/
theorem slice_append_slice {first second : Text}
    (cut : encoding.slice line start middle = .ok first)
    (cut' : encoding.slice line middle stop = .ok second) :
    encoding.slice line start stop = .ok (first ++ second) := by
  obtain ⟨before, after, rfl, rfl, rfl⟩ := slice_eq_ok_iff.mp cut
  obtain ⟨front, after', same, middleEq, rfl⟩ := slice_eq_ok_iff.mp cut'
  rw [List.append_assoc front] at same
  obtain ⟨rfl, rfl⟩ := append_inj_of_length_eq same middleEq.symm
  exact slice_eq_ok_iff.mpr ⟨before, after', by simp, rfl, by simp⟩

theorem slice_whole (encoding : PositionEncoding) (line : Text) :
    encoding.slice line 0 (encoding.length line) = .ok line :=
  slice_eq_ok_iff.mpr ⟨[], [], by simp, rfl, by simp⟩

/-- A slice has its two ends in every encoding, and is the same slice there. -/
theorem exists_slice_of_convert (cut : encoding.slice line start stop = .ok text)
    (other : PositionEncoding) :
    ∃ start' stop', convert line start encoding other = .ok start' ∧
      convert line stop encoding other = .ok stop' ∧ other.slice line start' stop' = .ok text := by
  obtain ⟨before, after, rfl, rfl, rfl⟩ := slice_eq_ok_iff.mp cut
  refine ⟨other.length before, other.length (before ++ text), ?_, ?_, ?_⟩
  · rw [List.append_assoc]
    exact convert_append encoding other before (text ++ after)
  · exact convert_append encoding other (before ++ text) after
  · exact slice_append other before text after

end Slices

/-- What can be cut out of a line by positions of an encoding. -/
structure IsCut (encoding : PositionEncoding) (line : Text) : Prop where
  succeeds : ∀ start stop, (∃ text, encoding.slice line start stop = .ok text) ↔
    encoding.IsBoundary line start ∧ encoding.IsBoundary line stop ∧ start ≤ stop
  length : ∀ start stop text, encoding.slice line start stop = .ok text →
    encoding.length text = stop - start
  joined : ∀ start middle stop first second, encoding.slice line start middle = .ok first →
    encoding.slice line middle stop = .ok second →
    encoding.slice line start stop = .ok (first ++ second)
  whole : encoding.slice line 0 (encoding.length line) = .ok line
  converted : ∀ other start stop text, encoding.slice line start stop = .ok text →
    ∃ start' stop', convert line start encoding other = .ok start' ∧
      convert line stop encoding other = .ok stop' ∧ other.slice line start' stop' = .ok text

theorem slice_isCut (encoding : PositionEncoding) (line : Text) :
    (∀ index, utf8.byteOffset line index = convert line index utf8 utf8) ∧
      encoding.IsCut line where
  left := byteOffset_utf8 line
  right :=
    { succeeds := fun _ _ => slice_isOk_iff
      length := fun _ _ _ => length_of_slice
      joined := fun _ _ _ _ _ => slice_append_slice
      whole := slice_whole encoding line
      converted := fun other _ _ _ cut => exists_slice_of_convert cut other }

end TokenMarkup.PositionEncoding
