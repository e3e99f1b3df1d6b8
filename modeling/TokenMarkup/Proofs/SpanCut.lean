import TokenMarkup.Proofs.Boundary
import TokenMarkup.Proofs.TokenOrder
import TokenMarkup.Span

/-!
# How lines are cut along tokens

`Span.Cuts` says without a word on positions, slices and faults what it is to cut lines along
tokens: one constructor for each thing that the cursor of `Span.cutFrom` can do. `Span.FirstMisfit`
says the same of what can go wrong, in the order in which it is looked for. Every run is one of the
two (`cutFrom_spec`, `ofTokens_spec`); in particular draining a line never fails.
-/

namespace TokenMarkup

/-- Whether a token lies on one of the lines, between two boundaries of it. -/
def Token.Fits (encoding : PositionEncoding) (lines : List Text) (token : Token) : Prop :=
  ∃ line, lines[token.line]? = some line ∧ encoding.IsBoundary line token.start ∧
    encoding.IsBoundary line token.stop

/-- What is wrong with a token that does not fit. The start is looked at before the stop. -/
inductive Token.Misplaced (encoding : PositionEncoding) (lines : List Text) (token : Token) :
    Fault → Prop
  | line : lines.length ≤ token.line →
      Misplaced encoding lines token (.lineOutOfRange token.line lines.length)
  | start {line : Text} : lines[token.line]? = some line →
      ¬ encoding.IsBoundary line token.start →
      Misplaced encoding lines token
        (.encodingBoundary (some token.line) token.start encoding (encoding.length line))
  | stop {line : Text} : lines[token.line]? = some line →
      encoding.IsBoundary line token.start → ¬ encoding.IsBoundary line token.stop →
      Misplaced encoding lines token
        (.encodingBoundary (some token.line) token.stop encoding (encoding.length line))

theorem Token.Misplaced.not_fits {encoding : PositionEncoding} {lines : List Text} {token : Token}
    {fault : Fault} (misplaced : token.Misplaced encoding lines fault) :
    ¬ token.Fits encoding lines := by
  rintro ⟨line, found, start, stop⟩
  cases misplaced with
  | line missing =>
      rw [List.getElem?_eq_none missing] at found
      cases found
  | start found' wrong =>
      rw [found', Option.some.injEq] at found
      exact wrong (found ▸ start)
  | stop found' _ wrong =>
      rw [found', Option.some.injEq] at found
      exact wrong (found ▸ stop)

namespace Span

/-- The cuts of lines along tokens, from the place `column` of line `row` on: `rest` is what is left
of that line, and `later` are the lines below it. -/
inductive Cuts (encoding : PositionEncoding) :
    (row column : Nat) → (rest : Text) → (later : List Text) → List Token → List Span → Prop
  /-- Behind the last token on the last line. -/
  | finish {row column : Nat} {rest : Text} : Cuts encoding row column rest [] [] (plain? rest)
  /-- Behind the last token on a line. -/
  | next {row column : Nat} {rest line : Text} {later : List Text} {tokens : List Token}
      {spans : List Span} : Cuts encoding (row + 1) 0 line later tokens spans →
      Cuts encoding row column rest (line :: later) tokens (plain? rest ++ lineBreak :: spans)
  /-- In front of a token on this line, perhaps with a gap up to it. -/
  | token {row column : Nat} {gap text rest : Text} {later : List Text} {token : Token}
      {tokens : List Token} {spans : List Span} : token.line = row →
      token.start = column + encoding.length gap → token.length = encoding.length text →
      Cuts encoding row token.stop rest later tokens spans →
      Cuts encoding row column (gap ++ text ++ rest) later (token :: tokens)
        (plain? gap ++ styled text token :: spans)

/-- What is wrong with a token that cannot come next. -/
inductive Misfit (encoding : PositionEncoding) (lines : List Text) (frontier : Frontier)
    (token : Token) : Fault → Prop
  | order {line stop : Nat} : ¬ frontier.admits token → frontier.reached = some (line, stop) →
      Misfit encoding lines frontier token (.orderingViolation frontier.stream frontier.position
        token.line token.start line stop)
  | place {fault : Fault} : frontier.admits token → token.Misplaced encoding lines fault →
      Misfit encoding lines frontier token fault

/-- What is wrong with the first token that cannot come next, all earlier ones being good. -/
inductive FirstMisfit (encoding : PositionEncoding) (lines : List Text) :
    Frontier → List Token → Fault → Prop
  | here {frontier : Frontier} {token : Token} {tokens : List Token} {fault : Fault} :
      Misfit encoding lines frontier token fault →
      FirstMisfit encoding lines frontier (token :: tokens) fault
  | later {frontier : Frontier} {token : Token} {tokens : List Token} {fault : Fault} :
      frontier.admits token → token.Fits encoding lines →
      FirstMisfit encoding lines (frontier.advance token) tokens fault →
      FirstMisfit encoding lines frontier (token :: tokens) fault

/-! ## Moving down -/

@[simp] theorem plain?_nil : plain? [] = [] := rfl

theorem plain?_of_ne_nil {text : Text} (someText : text ≠ []) : plain? text = [plain text] := by
  cases text with
  | nil => exact absurd rfl someText
  | cons c rest => rfl

/-- Leaving a line never fails: what is left of it is a slice up to its end. -/
theorem descend_cons {encoding : PositionEncoding} {target row : Nat} (above : row < target)
    (before rest : Text) (later : List Text) :
    descend encoding target row (encoding.length before) ((before ++ rest) :: later) =
      (fun result : List Span × Cursor =>
        (plain? rest ++ (if later.isEmpty then [] else [lineBreak]) ++ result.1, result.2)) <$>
        descend encoding target (row + 1) 0 later := by
  have tail : encoding.slice (before ++ rest) (encoding.length before)
      (encoding.length (before ++ rest)) = .ok rest :=
    PositionEncoding.slice_eq_ok_iff.mpr ⟨before, [], by simp, rfl, rfl⟩
  rw [descend, if_pos above, tail]
  simp only [locate, Except.mapError, bind, Except.bind]
  cases descend encoding target (row + 1) 0 later <;> rfl

theorem descend_end (encoding : PositionEncoding) (row : Nat) (before rest : Text)
    (later : List Text) :
    ∃ spans cursor, descend encoding (row + later.length + 1) row (encoding.length before)
        ((before ++ rest) :: later) = .ok (spans, cursor) ∧
      Cuts encoding row (encoding.length before) rest later [] spans := by
  induction later generalizing row before rest with
  | nil =>
      rw [descend_cons (by simp)]
      exact ⟨_, _, rfl, by simpa using Cuts.finish⟩
  | cons line later ih =>
      obtain ⟨spans, cursor, drained, cuts⟩ := ih (row + 1) [] line
      rw [List.nil_append, PositionEncoding.length_nil] at drained
      have below : row + (line :: later).length + 1 = row + 1 + later.length + 1 := by
        rw [List.length_cons]
        omega
      rw [descend_cons (by omega), below, drained]
      exact ⟨_, _, rfl, by simpa using cuts.next⟩

/-- The cursor on its way: it stands behind `before` in the line `row`, and what is left of the
lines is `rest` of that line and `later` below it. -/
structure Standing (encoding : PositionEncoding) (lines : List Text) (row column : Nat)
    (before rest : Text) (later : List Text) : Prop where
  here : lines.drop row = (before ++ rest) :: later
  column_eq : encoding.length before = column

namespace Standing

variable {encoding : PositionEncoding} {lines : List Text} {row column : Nat}
  {before rest : Text} {later : List Text}

theorem getElem? (standing : Standing encoding lines row column before rest later) :
    lines[row]? = some (before ++ rest) := by
  rw [← List.head?_drop, standing.here, List.head?_cons]

theorem length_eq (standing : Standing encoding lines row column before rest later) :
    lines.length = row + later.length + 1 := by
  have inside : row < lines.length := (List.getElem?_eq_some_iff.mp standing.getElem?).1
  have length := congrArg List.length standing.here
  rw [List.length_drop, List.length_cons] at length
  omega

theorem next {line : Text} (standing : Standing encoding lines row column before rest
    (line :: later)) : Standing encoding lines (row + 1) 0 [] line later where
  here := by
    rw [← List.drop_drop, standing.here]
    rfl
  column_eq := rfl

theorem behind {gap text : Text} {token : Token}
    (standing : Standing encoding lines row column before (gap ++ text ++ rest) later)
    (start : token.start = column + encoding.length gap)
    (length : token.length = encoding.length text) :
    Standing encoding lines row token.stop (before ++ gap ++ text) rest later where
  here := by simpa using standing.here
  column_eq := by
    rw [PositionEncoding.length_append, PositionEncoding.length_append, standing.column_eq,
      Token.stop, start, length]

/-- The cursor gets to every line below it that exists. Whatever is cut from there on is cut from
here on, with the passed lines in front. -/
theorem descend_to {target : Nat}
    (standing : Standing encoding lines row column before rest later) (above : row ≤ target)
    (exists_line : target < lines.length) :
    ∃ passed column' before' rest' later',
      descend encoding target row column ((before ++ rest) :: later) =
        .ok (passed, ⟨target, column', (before' ++ rest') :: later'⟩) ∧
      Standing encoding lines target column' before' rest' later' ∧
      (column' = 0 ∨ row = target ∧ column' = column) ∧
      ∀ tokens spans, Cuts encoding target column' rest' later' tokens spans →
        Cuts encoding row column rest later tokens (passed ++ spans) := by
  -- Down the lines: each one that is passed leaves its rest and a line break in front.
  induction later generalizing row column before rest with
  | nil =>
      have length := standing.length_eq
      have same : row = target := by
        rw [List.length_nil] at length
        omega
      subst same
      rw [descend, if_neg (Nat.lt_irrefl row)]
      exact ⟨[], column, before, rest, [], rfl, standing, .inr ⟨rfl, rfl⟩, fun _ _ cuts => cuts⟩
  | cons line later ih =>
      rcases Nat.eq_or_lt_of_le above with same | below
      · subst same
        rw [descend, if_neg (Nat.lt_irrefl row)]
        exact ⟨[], column, before, rest, _, rfl, standing, .inr ⟨rfl, rfl⟩, fun _ _ cuts => cuts⟩
      · obtain ⟨passed, column', before', rest', later', moved, standing', start, extend⟩ :=
          ih standing.next below
        rw [List.nil_append] at moved
        rw [← standing.column_eq, descend_cons below, moved]
        have fresh : column' = 0 := by
          rcases start with zero | ⟨-, zero⟩ <;> exact zero
        refine ⟨_, column', before', rest', later', rfl, standing', .inl fresh, ?_⟩
        intro tokens spans cuts
        simpa using (extend tokens spans cuts).next

end Standing

/-! ## One token -/

theorem locate_boundaryFault {α : Type} (row : Nat) (encoding : PositionEncoding) (line : Text)
    (index : Nat) :
    locate row (.error (encoding.boundaryFault line index) : Except Fault α) =
      .error (.encodingBoundary (some row) index encoding (encoding.length line)) := rfl

/-- In front of a token that starts at a boundary the gap is cut, and only the token's own slice
can still fail. -/
theorem cutToken_append {encoding : PositionEncoding} {row : Nat} {before gap after : Text}
    {token : Token} (start : encoding.length (before ++ gap) = token.start) :
    cutToken encoding row (encoding.length before) (before ++ gap ++ after) token =
      (fun text => plain? gap ++ [styled text token]) <$>
        locate row (encoding.slice (before ++ gap ++ after) token.start token.stop) := by
  have gapCut : encoding.slice (before ++ gap ++ after) (encoding.length before) token.start =
      .ok gap := start ▸ PositionEncoding.slice_append encoding before gap after
  rw [cutToken, gapCut]
  rw [PositionEncoding.length_append] at start
  cases gap with
  | nil =>
      rw [if_neg (by simp at start; omega)]
      rfl
  | cons c gap =>
      have positive := encoding.width_pos c
      rw [PositionEncoding.length_cons] at start
      rw [if_pos (by omega), plain?_of_ne_nil (by simp)]
      rfl

theorem cutToken_eq_ok {encoding : PositionEncoding} (row : Nat) {column : Nat}
    {before rest : Text} {token : Token} (column_eq : encoding.length before = column)
    (behind : column ≤ token.start)
    (start : encoding.IsBoundary (before ++ rest) token.start)
    (stop : encoding.IsBoundary (before ++ rest) token.stop) :
    ∃ gap text rest', rest = gap ++ text ++ rest' ∧ token.start = column + encoding.length gap ∧
      token.length = encoding.length text ∧
      cutToken encoding row column (before ++ rest) token =
        .ok (plain? gap ++ [styled text token]) := by
  obtain ⟨front, after, same, start⟩ := start
  obtain ⟨front', after', same', stop⟩ := stop
  obtain ⟨gap, rfl, rfl⟩ := PositionEncoding.exists_append_of_length_le same
    (show encoding.length before ≤ encoding.length front by omega)
  rw [← List.append_assoc] at same'
  obtain ⟨text, rfl, rfl⟩ := PositionEncoding.exists_append_of_length_le same'
    (show encoding.length (before ++ gap) ≤ encoding.length front' by
      rw [start, stop, Token.stop]
      omega)
  subst column_eq
  refine ⟨gap, text, after', by simp, by rw [← start, PositionEncoding.length_append], ?_, ?_⟩
  · rw [PositionEncoding.length_append, start, Token.stop] at stop
    omega
  · have cut : encoding.slice (before ++ gap ++ (text ++ after')) token.start token.stop =
        .ok text := by
      rw [← start, ← stop]
      exact PositionEncoding.slice_eq_ok_iff.mpr ⟨before ++ gap, after', by simp, rfl, rfl⟩
    rw [same, cutToken_append start, cut]
    rfl

theorem cutToken_eq_error_start {encoding : PositionEncoding} {row column : Nat}
    {before rest : Text} {token : Token} (column_eq : encoding.length before = column)
    (behind : column ≤ token.start)
    (misplaced : ¬ encoding.IsBoundary (before ++ rest) token.start) :
    cutToken encoding row column (before ++ rest) token =
      .error (.encodingBoundary (some row) token.start encoding
        (encoding.length (before ++ rest))) := by
  have column_boundary : encoding.IsBoundary (before ++ rest) column :=
    ⟨before, rest, rfl, column_eq⟩
  have open_gap : column < token.start := by
    rcases Nat.eq_or_lt_of_le behind with same | lt
    · exact absurd (same ▸ column_boundary) misplaced
    · exact lt
  rw [cutToken, if_pos open_gap, PositionEncoding.slice_eq_error_stop column_boundary
    (fun placed => absurd placed misplaced), locate_boundaryFault]
  rfl

theorem cutToken_eq_error_stop {encoding : PositionEncoding} {row column : Nat}
    {before rest : Text} {token : Token} (column_eq : encoding.length before = column)
    (behind : column ≤ token.start) (start : encoding.IsBoundary (before ++ rest) token.start)
    (misplaced : ¬ encoding.IsBoundary (before ++ rest) token.stop) :
    cutToken encoding row column (before ++ rest) token =
      .error (.encodingBoundary (some row) token.stop encoding
        (encoding.length (before ++ rest))) := by
  have failed : encoding.slice (before ++ rest) token.start token.stop =
      .error (encoding.boundaryFault (before ++ rest) token.stop) :=
    PositionEncoding.slice_eq_error_stop start (fun placed => absurd placed misplaced)
  obtain ⟨front, after, same, start⟩ := start
  obtain ⟨gap, rfl, rfl⟩ := PositionEncoding.exists_append_of_length_le same
    (show encoding.length before ≤ encoding.length front by omega)
  subst column_eq
  rw [same] at failed ⊢
  rw [cutToken_append start, failed, locate_boundaryFault]
  rfl

/-! ## All tokens -/

/-- Whether a frontier admits just the tokens that start at a place or behind. -/
def StandsAt (frontier : Frontier) (row column : Nat) : Prop :=
  ∀ token, frontier.admits token ↔ row < token.line ∨ row = token.line ∧ column ≤ token.start

theorem standsAt_fresh (stream : Stream) : StandsAt { stream } 0 0 := by
  intro token
  simp only [Frontier.admits, true_iff]
  omega

theorem standsAt_advance (frontier : Frontier) (token : Token) :
    StandsAt (frontier.advance token) token.line token.stop :=
  fun _ => Frontier.admits_advance

/-- What one token does: it is cut out and the run goes on behind it, or it is a misfit and the run
ends. -/
theorem cutFrom_cons {encoding : PositionEncoding} {lines : List Text} {frontier : Frontier}
    {row column : Nat} {before rest : Text} {later : List Text} {token : Token}
    (tokens : List Token) (standing : Standing encoding lines row column before rest later)
    (stands : StandsAt frontier row column) :
    (∃ fault, Misfit encoding lines frontier token fault ∧
      cutFrom encoding lines.length frontier ⟨row, column, (before ++ rest) :: later⟩
        (token :: tokens) = .error fault) ∨
    (frontier.admits token ∧ token.Fits encoding lines ∧
      ∃ cut before' rest' later',
        Standing encoding lines token.line token.stop before' rest' later' ∧
        cutFrom encoding lines.length frontier ⟨row, column, (before ++ rest) :: later⟩
          (token :: tokens) = (cut ++ ·) <$> cutFrom encoding lines.length (frontier.advance token)
            ⟨token.line, token.stop, (before' ++ rest') :: later'⟩ tokens ∧
        ∀ spans, Cuts encoding token.line token.stop rest' later' tokens spans →
          Cuts encoding row column rest later (token :: tokens) (cut ++ spans)) := by
  rw [cutFrom]
  by_cases admitted : frontier.admits token
  · rw [Frontier.accept_of_admits admitted]
    have place := (stands token).mp admitted
    by_cases exists_line : token.line < lines.length
    · obtain ⟨passed, column', before', rest', later', moved, standing', start, extend⟩ :=
        standing.descend_to (by omega) exists_line
      have behind : column' ≤ token.start := by omega
      simp only [bind, Except.bind, if_neg (Nat.not_le.mpr exists_line), moved]
      by_cases startsWell : encoding.IsBoundary (before' ++ rest') token.start
      · by_cases stopsWell : encoding.IsBoundary (before' ++ rest') token.stop
        · obtain ⟨gap, text, rest'', rfl, startEq, lengthEq, cut⟩ :=
            cutToken_eq_ok token.line standing'.column_eq behind startsWell stopsWell
          refine .inr ⟨admitted, ⟨_, standing'.getElem?, startsWell, stopsWell⟩,
            passed ++ (plain? gap ++ [styled text token]), before' ++ gap ++ text, rest'', later',
            standing'.behind startEq lengthEq, ?_, ?_⟩
          · rw [cut]
            simp only [List.append_assoc]
            cases cutFrom encoding lines.length (frontier.advance token) _ tokens <;> rfl
          · intro spans cuts
            simpa using extend _ _ (.token rfl startEq lengthEq cuts)
        · rw [cutToken_eq_error_stop standing'.column_eq behind startsWell stopsWell]
          exact .inl ⟨_, .place admitted (.stop standing'.getElem? startsWell stopsWell), rfl⟩
      · rw [cutToken_eq_error_start standing'.column_eq behind startsWell]
        exact .inl ⟨_, .place admitted (.start standing'.getElem? startsWell), rfl⟩
    · simp only [bind, Except.bind, if_pos (Nat.not_lt.mp exists_line)]
      exact .inl ⟨_, .place admitted (.line (Nat.not_lt.mp exists_line)), rfl⟩
  · obtain ⟨line, stop, reached, refused⟩ := Frontier.accept_of_not_admits admitted
    rw [refused]
    exact .inl ⟨_, .order admitted reached, rfl⟩

/-- Every run from a place on is a cut of all that is left along tokens that all fit, or ends at
the first misfit. -/
theorem cutFrom_spec {encoding : PositionEncoding} {lines : List Text} {frontier : Frontier}
    {row column : Nat} {before rest : Text} {later : List Text} {tokens : List Token}
    (standing : Standing encoding lines row column before rest later)
    (stands : StandsAt frontier row column) :
    (∃ spans, cutFrom encoding lines.length frontier ⟨row, column, (before ++ rest) :: later⟩
        tokens = .ok spans ∧ Cuts encoding row column rest later tokens spans ∧
      frontier.AdmitsAll tokens ∧ ∀ token ∈ tokens, token.Fits encoding lines) ∨
    ∃ fault, cutFrom encoding lines.length frontier ⟨row, column, (before ++ rest) :: later⟩
        tokens = .error fault ∧ FirstMisfit encoding lines frontier tokens fault := by
  -- Along the tokens: the cursor stands where, as the frontier remembers, the last one ended.
  induction tokens generalizing frontier row column before rest later with
  | nil =>
      obtain ⟨spans, cursor, drained, cuts⟩ := descend_end encoding row before rest later
      rw [standing.column_eq] at drained cuts
      rw [cutFrom, standing.length_eq, drained]
      exact .inl ⟨spans, rfl, cuts, frontier.admitsAll_nil, by simp⟩
  | cons token tokens ih =>
      rcases cutFrom_cons tokens standing stands with ⟨fault, misfit, failed⟩ |
        ⟨admitted, fits, cut, before', rest', later', standing', run, extend⟩
      · exact .inr ⟨fault, failed, .here misfit⟩
      · rw [run]
        rcases ih standing' (standsAt_advance frontier token) with
          ⟨spans, done, cuts, admits, fit⟩ | ⟨fault, failed, misfit⟩
        · rw [done]
          exact .inl ⟨_, rfl, extend spans cuts, Frontier.admitsAll_cons.mpr ⟨admitted, admits⟩,
            List.forall_mem_cons.mpr ⟨fits, fit⟩⟩
        · rw [failed]
          exact .inr ⟨fault, rfl, .later admitted fits misfit⟩

/-- The cuts of whole texts. No lines are cut along no tokens into no spans. -/
def CutsAll (encoding : PositionEncoding) (tokens : List Token) (spans : List Span) :
    List Text → Prop
  | [] => tokens = [] ∧ spans = []
  | line :: later => Cuts encoding 0 0 line later tokens spans

/-- Every run is a cut of the lines along tokens that are in order and all fit, or ends at the
first misfit. -/
theorem ofTokens_spec (tokens : List Token) (lines : List Text) (encoding : PositionEncoding) :
    (∃ spans, ofTokens tokens lines encoding = .ok spans ∧ CutsAll encoding tokens spans lines ∧
      InOrder tokens ∧ ∀ token ∈ tokens, token.Fits encoding lines) ∨
    ∃ fault, ofTokens tokens lines encoding = .error fault ∧
      FirstMisfit encoding lines { stream := .merged } tokens fault := by
  cases lines with
  | nil =>
      cases tokens with
      | nil => exact .inl ⟨[], rfl, ⟨rfl, rfl⟩, List.isChain_nil, by simp⟩
      | cons token tokens => exact .inr ⟨_, rfl, .here (.place rfl (.line (Nat.zero_le _)))⟩
  | cons line later =>
      have standing : Standing encoding (line :: later) 0 0 [] line later := ⟨rfl, rfl⟩
      rcases @cutFrom_spec _ _ _ _ _ _ _ _ tokens standing (standsAt_fresh .merged) with
        ⟨spans, done, cuts, admits, fit⟩ | failed
      · exact .inl ⟨spans, done, cuts, Frontier.admitsAll_fresh.mp admits, fit⟩
      · exact .inr failed

/-- Among tokens in order the first misfit is one that does not fit. -/
theorem FirstMisfit.exists_misplaced {encoding : PositionEncoding} {lines : List Text}
    {frontier : Frontier} {tokens : List Token} {fault : Fault}
    (misfit : FirstMisfit encoding lines frontier tokens fault)
    (admits : frontier.AdmitsAll tokens) :
    ∃ token ∈ tokens, token.Misplaced encoding lines fault := by
  induction misfit with
  | here misfit =>
      cases misfit with
      | order refused => exact absurd (Frontier.admitsAll_cons.mp admits).1 refused
      | place _ misplaced => exact ⟨_, List.mem_cons_self, misplaced⟩
  | later _ _ _ ih =>
      obtain ⟨token, member, misplaced⟩ := ih (Frontier.admitsAll_cons.mp admits).2
      exact ⟨token, List.mem_cons_of_mem _ member, misplaced⟩

theorem ofTokens_isOk_iff {tokens : List Token} {lines : List Text} {encoding : PositionEncoding} :
    (∃ spans, ofTokens tokens lines encoding = .ok spans) ↔
      InOrder tokens ∧ ∀ token ∈ tokens, token.Fits encoding lines := by
  rcases ofTokens_spec tokens lines encoding with
    ⟨spans, done, -, order, fit⟩ | ⟨fault, failed, misfit⟩
  · exact iff_of_true ⟨spans, done⟩ ⟨order, fit⟩
  · refine iff_of_false ?_ ?_
    · rintro ⟨spans, done⟩
      rw [failed] at done
      cases done
    · rintro ⟨order, fit⟩
      obtain ⟨token, member, misplaced⟩ :=
        misfit.exists_misplaced (Frontier.admitsAll_fresh.mpr order)
      exact misplaced.not_fits (fit token member)

theorem cutsAll_of_ofTokens {tokens : List Token} {lines : List Text}
    {encoding : PositionEncoding} {spans : List Span}
    (run : ofTokens tokens lines encoding = .ok spans) : CutsAll encoding tokens spans lines := by
  rcases ofTokens_spec tokens lines encoding with ⟨spans', done, cuts, -⟩ | ⟨fault, failed, -⟩
  · rw [done, Except.ok.injEq] at run
    exact run ▸ cuts
  · rw [failed] at run
    cases run

end Span

end TokenMarkup
