import TokenMarkup.Proofs.Disorder
import TokenMarkup.Proofs.SpanCut
import TokenMarkup.Proofs.Words

/-!
# Where cutting stops

Lines are cut along tokens that are in order, lie on the lines and end at boundaries. The fault of
any other list is that of the first token that stands in the way: `Token.Obstructs` says of which
kind it is, and `Span.ofTokens_eq_error_iff` that no later token and no other check comes before it.

What is cut out is the gap in front of a token, the token itself and the rest of a line that is
left. `Guarded.ofTokens` is the run in which two faults of these are traps: a rest that cannot be
cut out, and a range that goes backwards. It never traps, for the cursor stands at a boundary all
the way. Main statement: `Span.ofTokens_stops_at_first`.
-/

namespace TokenMarkup

variable {encoding : PositionEncoding} {lines : List Text} {fault fault' : Fault}

/-! ## The first token that stands in the way -/

/-- The places of a token are looked at one after the other, so it has one fault at most. -/
theorem Token.Misplaced.unique {token : Token} (misplaced : token.Misplaced encoding lines fault)
    (misplaced' : token.Misplaced encoding lines fault') : fault = fault' := by
  cases misplaced <;> cases misplaced' <;> grind

/-- What is wrong with a token that stands in the way of cutting behind those in front of it. The
order is looked at before the place. -/
inductive Token.Obstructs (encoding : PositionEncoding) (lines : List Text) (before : List Token)
    (token : Token) : Fault → Prop
  | order {fault : Fault} : token.Intrudes .merged before fault →
      Obstructs encoding lines before token fault
  | place {fault : Fault} : (∀ previous ∈ before.getLast?, previous.EndsBefore token) →
      token.Misplaced encoding lines fault → Obstructs encoding lines before token fault

namespace Span

variable {frontier : Frontier} {token : Token} {tokens : List Token}

theorem misfit_iff :
    Misfit encoding lines frontier token fault ↔
      frontier.accept token = .error fault ∨
        frontier.admits token ∧ token.Misplaced encoding lines fault := by
  constructor
  · intro misfit
    cases misfit with
    | order refused reached =>
        obtain ⟨line, stop, reached', failed⟩ := Frontier.accept_of_not_admits refused
        cases reached.symm.trans reached'
        exact .inl failed
    | place admitted misplaced => exact .inr ⟨admitted, misplaced⟩
  · rintro (failed | ⟨admitted, misplaced⟩)
    · by_cases admitted : frontier.admits token
      · rw [Frontier.accept_of_admits admitted] at failed
        cases failed
      · obtain ⟨line, stop, reached, failed'⟩ := Frontier.accept_of_not_admits admitted
        cases failed.symm.trans failed'
        exact .order admitted reached
    · exact .place admitted misplaced

theorem Misfit.unique (misfit : Misfit encoding lines frontier token fault)
    (misfit' : Misfit encoding lines frontier token fault') : fault = fault' := by
  cases misfit with
  | order refused reached =>
      cases misfit' with
      | order _ reached' =>
          cases reached.symm.trans reached'
          rfl
      | place admitted => exact absurd admitted refused
  | place admitted misplaced =>
      cases misfit' with
      | order refused => exact absurd admitted refused
      | place _ misplaced' => exact misplaced.unique misplaced'

theorem Misfit.not_fits (misfit : Misfit encoding lines frontier token fault)
    (admitted : frontier.admits token) : ¬ token.Fits encoding lines := by
  cases misfit with
  | order refused => exact absurd admitted refused
  | place _ misplaced => exact misplaced.not_fits

theorem FirstMisfit.unique (misfit : FirstMisfit encoding lines frontier tokens fault)
    (misfit' : FirstMisfit encoding lines frontier tokens fault') : fault = fault' := by
  induction misfit with
  | here misfit =>
      cases misfit' with
      | here misfit' => exact misfit.unique misfit'
      | later admitted fits => exact absurd fits (misfit.not_fits admitted)
  | later admitted fits _ ih =>
      cases misfit' with
      | here misfit' => exact absurd fits (misfit'.not_fits admitted)
      | later _ _ misfit' => exact ih misfit'

/-- The first misfit behind a frontier, as what is first at fault. -/
theorem firstMisfit_iff_firstFault :
    FirstMisfit encoding lines frontier tokens fault ↔
      FirstFault
        (fun before => frontier.AdmitsAll before ∧ ∀ token ∈ before, token.Fits encoding lines)
        (fun before => Misfit encoding lines (before.foldl Frontier.advance frontier))
        tokens fault := by
  induction tokens generalizing frontier with
  | nil => exact iff_of_false nofun not_firstFault_nil
  | cons token rest ih =>
      have front : ∀ before : List Token,
          (frontier.AdmitsAll (token :: before) ∧
            ∀ other ∈ token :: before, other.Fits encoding lines) ↔
          (frontier.admits token ∧ token.Fits encoding lines) ∧
            (frontier.advance token).AdmitsAll before ∧
              ∀ other ∈ before, other.Fits encoding lines := by
        intro before
        rw [Frontier.admitsAll_cons, List.forall_mem_cons, and_and_and_comm]
      rw [firstFault_cons_iff]
      simp only [front, firstFault_and_iff, List.foldl_cons, List.foldl_nil, ← ih]
      constructor
      · intro misfit
        cases misfit with
        | here misfit => exact .inl ⟨⟨frontier.admitsAll_nil, by simp⟩, misfit⟩
        | later admitted fits misfit => exact .inr ⟨⟨admitted, fits⟩, misfit⟩
      · rintro (⟨-, misfit⟩ | ⟨⟨admitted, fits⟩, misfit⟩)
        · exact .here misfit
        · exact .later admitted fits misfit

theorem misfit_foldl_advance_iff {before : List Token} :
    Misfit encoding lines (before.foldl Frontier.advance { stream := .merged }) token fault ↔
      token.Obstructs encoding lines before fault := by
  rw [misfit_iff, Frontier.accept_foldl_advance_eq_error_iff, Frontier.admits_foldl_advance_iff]
  constructor
  · rintro (intrudes | ⟨behind, misplaced⟩)
    · exact .order intrudes
    · exact .place behind misplaced
  · intro obstructs
    cases obstructs with
    | order intrudes => exact .inl intrudes
    | place behind misplaced => exact .inr ⟨behind, misplaced⟩

theorem ofTokens_eq_error_iff_firstMisfit :
    ofTokens tokens lines encoding = .error fault ↔
      FirstMisfit encoding lines { stream := .merged } tokens fault := by
  rcases ofTokens_spec tokens lines encoding with
    ⟨spans, done, -, order, fit⟩ | ⟨fault', failed, misfit⟩
  · rw [done]
    refine iff_of_false nofun fun misfit => ?_
    obtain ⟨token, member, misplaced⟩ :=
      misfit.exists_misplaced (Frontier.admitsAll_fresh.mpr order)
    exact misplaced.not_fits (fit token member)
  · rw [failed, Except.error.injEq]
    exact ⟨fun same => same ▸ misfit, fun misfit' => misfit.unique misfit'⟩

/-- Cutting fails at the first token that stands in the way. -/
theorem ofTokens_eq_error_iff :
    ofTokens tokens lines encoding = .error fault ↔
      FirstFault (fun before => InOrder before ∧ ∀ token ∈ before, token.Fits encoding lines)
        (Token.Obstructs encoding lines) tokens fault := by
  rw [ofTokens_eq_error_iff_firstMisfit, firstMisfit_iff_firstFault]
  simp only [FirstFault, Frontier.admitsAll_fresh, misfit_foldl_advance_iff]

/-! ## What never comes up -/

namespace Guarded

open Machine (Run)
open PositionEncoding (utf8)

/-- A slice in which a range that goes backwards is a trap. -/
def slice (encoding : PositionEncoding) (line : Text) (start stop : Nat) : Run Text := do
  let startByte ← Run.of (encoding.byteOffset line start)
  let stopByte ← Run.of (encoding.byteOffset line stop)
  if stopByte < startByte then .error (.trap .range)
  else .ok (utf8.take (stopByte - startByte) (utf8.drop startByte line))

/-- What is left of a line. All that can be wrong with it is a trap. -/
def remainder (encoding : PositionEncoding) (line : Text) (column : Nat) : Run Text :=
  match encoding.slice line column (encoding.length line) with
  | .ok text => .ok text
  | .error _ => .error (.trap .range)

/-- Moves down to the line `target`, or behind the last line. -/
def descend (encoding : PositionEncoding) (target : Nat) :
    (row column : Nat) → List Text → Run (List Span × Cursor)
  | row, column, [] => .ok ([], ⟨row, column, []⟩)
  | row, column, line :: later =>
    if row < target then do
      let tail ← remainder encoding line column
      let (spans, cursor) ← descend encoding target (row + 1) 0 later
      let separator := if later.isEmpty then [] else [lineBreak]
      return (plain? tail ++ separator ++ spans, cursor)
    else .ok ([], ⟨row, column, line :: later⟩)

/-- The gap in front of a token, and the token's own stretch. -/
def cutToken (encoding : PositionEncoding) (row column : Nat) (line : Text) (token : Token) :
    Run (List Span) := do
  let gap ←
    if column < token.start then
      (fun text => [plain text]) <$> (slice encoding line column token.start).locate row
    else pure []
  let text ← (slice encoding line token.start token.stop).locate row
  return gap ++ [styled text token]

/-- Cuts the rest of the lines along the rest of the tokens. -/
def cutFrom (encoding : PositionEncoding) (count : Nat) (frontier : Frontier) (cursor : Cursor) :
    List Token → Run (List Span)
  | [] => do
    let (spans, _) ← descend encoding count cursor.row cursor.column cursor.lines
    return spans
  | token :: rest => do
    let frontier ← Run.of (frontier.accept token)
    if count ≤ token.line then throw (.fault (.lineOutOfRange token.line count))
    let (passed, cursor) ← descend encoding token.line cursor.row cursor.column cursor.lines
    match cursor.lines with
    | [] => throw (.fault (.lineOutOfRange token.line count))
    | line :: _ =>
      let cut ← cutToken encoding cursor.row cursor.column line token
      let others ← cutFrom encoding count frontier { cursor with column := token.stop } rest
      return passed ++ cut ++ others

/-- Cuts lines along tokens. -/
def ofTokens (tokens : List Token) (lines : List Text) (encoding : PositionEncoding) :
    Run (List Span) :=
  cutFrom encoding lines.length { stream := .merged } ⟨0, 0, lines⟩ tokens

/-- Bytes and units say the same of the order of two boundaries, so a range that goes forwards in
units is no trap. -/
theorem slice_eq {start stop : Nat} (line : Text) (forward : start ≤ stop) :
    slice encoding line start stop = .of (encoding.slice line start stop) := by
  unfold slice PositionEncoding.slice
  refine Run.bind_of rfl fun startByte started => ?_
  refine Run.bind_of rfl fun stopByte stopped => ?_
  obtain ⟨before, after, same, rfl, rfl⟩ := PositionEncoding.byteOffset_eq_ok_iff.mp started
  obtain ⟨before', after', same', rfl, rfl⟩ := PositionEncoding.byteOffset_eq_ok_iff.mp stopped
  have ahead : ¬ utf8.length before' < utf8.length before :=
    Nat.not_lt.mpr ((PositionEncoding.length_le_length_iff encoding utf8
      (same.symm.trans same')).mp forward)
  rw [if_neg ahead, if_neg ahead]
  rfl

example : slice .utf16 ['a', 'b'] 2 1 = .error (.trap .range) := by decide

variable {row column : Nat} {before rest : Text} {later : List Text}

/-- The cursor stands at a boundary of its line, so the rest of it is there to be cut out. -/
theorem remainder_eq (standing : Standing encoding lines row column before rest later) :
    remainder encoding (before ++ rest) column =
      .of (locate row (encoding.slice (before ++ rest) column
        (encoding.length (before ++ rest)))) := by
  have tail : encoding.slice (before ++ rest) column (encoding.length (before ++ rest)) =
      .ok rest :=
    PositionEncoding.slice_eq_ok_iff.mpr ⟨before, [], by simp, standing.column_eq, rfl⟩
  rw [remainder, tail]
  rfl

example : remainder .utf16 ['𐐀', 'b'] 1 = .error (.trap .range) := by decide

theorem descend_eq (standing : Standing encoding lines row column before rest later)
    (target : Nat) :
    descend encoding target row column ((before ++ rest) :: later) =
      .of (Span.descend encoding target row column ((before ++ rest) :: later)) := by
  induction later generalizing row column before rest with
  | nil =>
      rw [descend, Span.descend]
      split
      · exact Run.bind_of (remainder_eq standing) fun _ _ => rfl
      · rfl
  | cons line later ih =>
      rw [descend, Span.descend]
      split
      · refine Run.bind_of (remainder_eq standing) fun _ _ => ?_
        exact Run.bind_of (ih standing.next) fun _ _ => rfl
      · rfl

theorem cutToken_eq (line : Text) :
    cutToken encoding row column line token =
      .of (Span.cutToken encoding row column line token) := by
  have own : token.start ≤ token.stop := Nat.le_add_right _ _
  unfold cutToken Span.cutToken
  rw [slice_eq line own, Run.locate_of]
  split
  · next gap =>
      rw [slice_eq line (Nat.le_of_lt gap), Run.locate_of, Run.map_of]
      refine Run.bind_of rfl fun gap _ => ?_
      exact Run.bind_of rfl fun text _ => rfl
  · simp only [pure_bind]
    exact Run.bind_of rfl fun text _ => rfl

/-- Behind a token that was cut out the cursor stands at a boundary again. -/
theorem standing_of_cutToken {cut : List Span}
    (standing : Standing encoding lines token.line column before rest later)
    (behind : column ≤ token.start)
    (run : Span.cutToken encoding token.line column (before ++ rest) token = .ok cut) :
    ∃ before' rest', before ++ rest = before' ++ rest' ∧
      Standing encoding lines token.line token.stop before' rest' later := by
  by_cases start : encoding.IsBoundary (before ++ rest) token.start
  · by_cases stop : encoding.IsBoundary (before ++ rest) token.stop
    · obtain ⟨gap, text, rest', rfl, startEq, lengthEq, -⟩ :=
        cutToken_eq_ok token.line standing.column_eq behind start stop
      exact ⟨before ++ gap ++ text, rest', by simp, standing.behind startEq lengthEq⟩
    · rw [cutToken_eq_error_stop standing.column_eq behind start stop] at run
      cases run
  · rw [cutToken_eq_error_start standing.column_eq behind start] at run
    cases run

theorem cutFrom_eq (standing : Standing encoding lines row column before rest later)
    (stands : StandsAt frontier row column) :
    cutFrom encoding lines.length frontier ⟨row, column, (before ++ rest) :: later⟩ tokens =
      .of (Span.cutFrom encoding lines.length frontier ⟨row, column, (before ++ rest) :: later⟩
        tokens) := by
  -- Along the tokens: the cursor stands at a boundary, which is where the last token ended.
  induction tokens generalizing frontier row column before rest later with
  | nil => exact Run.bind_of (descend_eq standing lines.length) fun _ _ => rfl
  | cons token tokens ih =>
      rw [cutFrom, Span.cutFrom]
      refine Run.bind_of rfl fun advanced accepted => ?_
      by_cases missing : lines.length ≤ token.line
      · simp only [if_pos missing]
        rfl
      · obtain ⟨admitted, rfl⟩ := Frontier.accept_eq_ok_iff.mp accepted
        have place := (stands token).mp admitted
        obtain ⟨passed, column', before', rest', later', moved, standing', start, -⟩ :=
          standing.descend_to (by omega) (Nat.lt_of_not_le missing)
        have behind : column' ≤ token.start := by omega
        simp only [if_neg missing]
        refine Run.bind_of (descend_eq standing token.line) fun result moved' => ?_
        cases moved.symm.trans moved'
        refine Run.bind_of (cutToken_eq _) fun cut done => ?_
        obtain ⟨before'', rest'', same, standing''⟩ := standing_of_cutToken standing' behind done
        have more := ih standing'' (standsAt_advance frontier token)
        rw [← same] at more
        exact Run.bind_of more fun others _ => rfl

theorem ofTokens_eq (tokens : List Token) (lines : List Text) (encoding : PositionEncoding) :
    ofTokens tokens lines encoding = .of (Span.ofTokens tokens lines encoding) := by
  cases lines with
  | nil => cases tokens <;> rfl
  | cons line later =>
      have standing : Standing encoding (line :: later) 0 0 [] line later := ⟨rfl, rfl⟩
      exact cutFrom_eq standing (standsAt_fresh .merged)

end Guarded

/-- Lines are cut along tokens that are in order and fit, and else the fault is that of the first
token that stands in the way. On the way the rest of a line is always there to be cut out, and no
range goes backwards. -/
theorem ofTokens_stops_at_first (tokens : List Token) (lines : List Text)
    (encoding : PositionEncoding) :
    ((∃ spans, ofTokens tokens lines encoding = .ok spans) ↔
      InOrder tokens ∧ ∀ token ∈ tokens, token.Fits encoding lines) ∧
    (∀ fault, ofTokens tokens lines encoding = .error fault ↔
      FirstFault (fun before => InOrder before ∧ ∀ token ∈ before, token.Fits encoding lines)
        (Token.Obstructs encoding lines) tokens fault) ∧
    Guarded.ofTokens tokens lines encoding = .of (ofTokens tokens lines encoding) ∧
    ∀ trap, Guarded.ofTokens tokens lines encoding ≠ .error (.trap trap) := by
  have same := Guarded.ofTokens_eq tokens lines encoding
  refine ⟨ofTokens_isOk_iff, fun fault => ofTokens_eq_error_iff, same, fun trap => ?_⟩
  rw [same]
  exact Machine.Run.of_ne_trap _ trap

end Span

end TokenMarkup
