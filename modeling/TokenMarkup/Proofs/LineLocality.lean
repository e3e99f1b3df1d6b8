import TokenMarkup.Markup
import TokenMarkup.Proofs.Overlay
import TokenMarkup.Proofs.Partition

/-!
# Highlighting goes line by line

The overlay walks down two streams and the cut walks down the lines, each with a state that is
carried over from line to line. Nothing of one line shows on another: the markup of a text is that
of its lines, each laid out on its own with the tokens that stand on it, joined by newlines
(`Markup.ofStreams_eq_intercalate`).

* For the overlay this rests on its description as a sort: a stable sort can be filtered before or
  after (`filter_mergeSort`), and tokens of different lines never conflict, so arranging two streams
  and looking at one line is the same as arranging what stands on that line (`onRow_arranged`).
* For the cut it rests on `Span.Cuts`: a cut of many lines falls into cuts of one line each
  (`Span.Cuts.render_rows`), and cutting finds the cut that there is (`Span.ofTokens_of_cuts`).
-/

namespace TokenMarkup

/-! ## Tokens of one line -/

/-- The token as it stands on the first line of a text. -/
def Token.onFirstLine (token : Token) : Token := { token with line := 0 }

/-- The tokens that stand on the line `row`, as tokens of a text that has this line alone. -/
def onRow (row : Nat) (tokens : List Token) : List Token :=
  (tokens.filter (·.line = row)).map Token.onFirstLine

theorem onRow_append (row : Nat) (front back : List Token) :
    onRow row (front ++ back) = onRow row front ++ onRow row back := by
  simp [onRow]

theorem onRow_cons_of_eq {row : Nat} {token : Token} (here : token.line = row)
    (tokens : List Token) :
    onRow row (token :: tokens) = token.onFirstLine :: onRow row tokens := by
  simp [onRow, here]

theorem onRow_cons_of_ne {row : Nat} {token : Token} (elsewhere : token.line ≠ row)
    (tokens : List Token) : onRow row (token :: tokens) = onRow row tokens := by
  simp [onRow, elsewhere]

theorem onRow_eq_nil {row : Nat} {tokens : List Token}
    (elsewhere : ∀ token ∈ tokens, token.line ≠ row) : onRow row tokens = [] := by
  simpa [onRow] using elsewhere

/-- On one line, tokens compare as they do when that line is the first. -/
theorem Token.placeLe_onFirstLine {a b : Token} (sameLine : a.line = b.line) :
    a.onFirstLine.placeLe b.onFirstLine = a.placeLe b := by
  rw [Bool.eq_iff_iff, placeLe, placeLe, decide_eq_true_iff, decide_eq_true_iff,
    place_le_place_iff, place_le_place_iff]
  simp [onFirstLine, sameLine]

theorem Token.conflicts_onFirstLine {a b : Token} (sameLine : a.line = b.line) :
    a.onFirstLine.Conflicts b.onFirstLine ↔ a.Conflicts b := by
  simp [Conflicts, onFirstLine, stop, sameLine]

theorem inOrder_onRow {row : Nat} {tokens : List Token} (order : InOrder tokens) :
    InOrder (onRow row tokens) := by
  rw [inOrder_iff_pairwise] at order ⊢
  refine List.pairwise_map.mpr ((order.filter _).imp_of_mem ?_)
  intro a b inRow inRow' before
  have line : a.line = row := by simpa using (List.mem_filter.mp inRow).2
  have line' : b.line = row := by simpa using (List.mem_filter.mp inRow').2
  rcases before with above | ⟨-, ends⟩
  · omega
  · exact .inr ⟨rfl, ends⟩

/-! ## The overlay of one line -/

/-- A stable sort leaves the same behind whether it is filtered before or after. -/
theorem filter_mergeSort {α : Type} {le : α → α → Bool}
    (trans : ∀ a b c, le a b → le b c → le a c) (total : ∀ a b, le a b || le b a)
    (p : α → Bool) (items : List α) :
    (items.mergeSort le).filter p = (items.filter p).mergeSort le := by
  induction items with
  | nil => simp
  | cons a items ih =>
      obtain ⟨smaller, larger, sorted, sortedRest, strict, weak⟩ :=
        mergeSort_cons_eq trans total a items
      rw [sortedRest, List.filter_append] at ih
      rw [sorted, List.filter_append]
      by_cases kept : p a
      · obtain ⟨smaller', larger', sorted', sortedRest', strict', weak'⟩ :=
          mergeSort_cons_eq trans total a (items.filter p)
        -- There is one place for `a` among what is kept, and both sorts put it there.
        obtain ⟨rfl, rfl⟩ := append_inj_of_cut (ih.trans sortedRest')
          (fun b member => strict b (List.mem_of_mem_filter member))
          (fun b member => weak b (List.mem_of_mem_filter member)) strict' weak'
        rw [List.filter_cons_of_pos kept, List.filter_cons_of_pos kept, sorted']
      · rw [List.filter_cons_of_neg kept, List.filter_cons_of_neg kept, ih]

namespace Overlay

/-- A token has its conflicts on its own line. -/
theorem forall_onRow_iff {row : Nat} {primary : List Token} {token : Token}
    (here : token.line = row) :
    (∀ p ∈ onRow row primary, ¬ p.Conflicts token.onFirstLine) ↔
      ∀ p ∈ primary, ¬ p.Conflicts token := by
  simp only [onRow, List.mem_map, List.mem_filter, decide_eq_true_eq]
  constructor
  · intro apart p member conflict
    have sameLine : p.line = token.line := conflict.1
    exact apart _ ⟨p, ⟨member, sameLine.trans here⟩, rfl⟩
      ((Token.conflicts_onFirstLine sameLine).mpr conflict)
  · rintro apart _ ⟨p, ⟨member, line⟩, rfl⟩ conflict
    exact apart p member ((Token.conflicts_onFirstLine (line.trans here.symm)).mp conflict)

theorem onRow_clear (row : Nat) (primary secondary : List Token) :
    onRow row (clear primary secondary) = clear (onRow row primary) (onRow row secondary) := by
  show ((secondary.filter _).filter (·.line = row)).map Token.onFirstLine =
    ((secondary.filter (·.line = row)).map Token.onFirstLine).filter _
  rw [List.filter_map, List.filter_filter, List.filter_filter]
  congr 1
  apply List.filter_congr
  intro token _
  by_cases here : token.line = row
  · simp [here, forall_onRow_iff here]
  · simp [here]

/-- Arranging two streams and looking at one line is arranging what stands on that line. -/
theorem onRow_arranged (row : Nat) (primary secondary : List Token) :
    onRow row (arranged primary secondary) =
      arranged (onRow row primary) (onRow row secondary) := by
  have sameLine : ∀ a ∈ (clear primary secondary ++ primary).filter (·.line = row),
      ∀ b ∈ (clear primary secondary ++ primary).filter (·.line = row),
        a.placeLe b = a.onFirstLine.placeLe b.onFirstLine := by
    intro a inRow b inRow'
    have line : a.line = row := by simpa using (List.mem_filter.mp inRow).2
    have line' : b.line = row := by simpa using (List.mem_filter.mp inRow').2
    exact (Token.placeLe_onFirstLine (line.trans line'.symm)).symm
  rw [arranged, onRow, filter_mergeSort Token.placeLe_trans Token.placeLe_total,
    List.map_mergeSort sameLine, ← onRow, onRow_append, onRow_clear, ← arranged]

end Overlay

/-! ## The cut of one line -/

namespace Span

namespace Cuts

variable {encoding : PositionEncoding} {row column : Nat} {rest : Text} {later : List Text}
  {tokens : List Token} {spans : List Span}

/-- Tokens along which lines are cut are in order, from the place of the cut on. -/
theorem pairwise (cuts : Cuts encoding row column rest later tokens spans) :
    tokens.Pairwise Token.EndsBefore ∧
      ∀ token ∈ tokens, row < token.line ∨ row = token.line ∧ column ≤ token.start := by
  induction cuts with
  | finish => simp
  | next _ ih =>
      refine ⟨ih.1, fun token member => .inl ?_⟩
      have below := ih.2 token member
      omega
  | token here start _ _ ih =>
      refine ⟨List.pairwise_cons.mpr ⟨?_, ih.1⟩, List.forall_mem_cons.mpr ⟨.inr ?_, ?_⟩⟩
      · intro other member
        have behind := ih.2 other member
        rwa [← here] at behind
      · omega
      · intro other member
        have behind := ih.2 other member
        simp only [Token.stop] at behind
        omega

theorem fits {lines : List Text} {before : Text}
    (cuts : Cuts encoding row column rest later tokens spans)
    (standing : Standing encoding lines row column before rest later) :
    ∀ token ∈ tokens, token.Fits encoding lines := by
  intro token member
  rw [← cuts.tokens_eq, List.mem_filterMap] at member
  obtain ⟨span, inSpans, styledBy⟩ := member
  obtain ⟨line, found, cut⟩ := cuts.slice_eq standing span inSpans token styledBy
  obtain ⟨before, after, rfl, start, stop⟩ := PositionEncoding.slice_eq_ok_iff.mp cut
  exact ⟨_, found, ⟨before, span.text ++ after, by simp, start⟩,
    before ++ span.text, after, rfl, stop⟩

/-- A cut of many lines is, as markup, the cuts of the lines one by one with newlines between
them. -/
theorem render_rows (stems : ClassStems)
    (cuts : Cuts encoding row column rest later tokens spans) :
    ∃ first others, Cuts encoding 0 column rest [] (onRow row tokens) first ∧
      others.length = later.length ∧
      (∀ k line below, later[k]? = some line → others[k]? = some below →
        Cuts encoding 0 0 line [] (onRow (row + 1 + k) tokens) below) ∧
      Markup.render stems spans =
        ['\n'].intercalate ((first :: others).map (Markup.render stems)) := by
  induction cuts with
  | finish => exact ⟨_, [], .finish, rfl, by simp, by simp⟩
  | @next row column rest line later tokens spans cuts ih =>
      obtain ⟨first, others, cutHere, count, below, written⟩ := ih
      have none_here : onRow row tokens = [] := by
        apply onRow_eq_nil
        intro token member
        have deeper := cuts.row_le token member
        omega
      refine ⟨plain? rest, first :: others, none_here ▸ .finish, by simp [count], ?_, ?_⟩
      · intro k line' spans' foundLine foundSpans
        cases k with
        | zero =>
            rw [List.getElem?_cons_zero, Option.some.injEq] at foundLine foundSpans
            exact foundLine ▸ foundSpans ▸ cutHere
        | succ k =>
            rw [List.getElem?_cons_succ] at foundLine foundSpans
            have shift : row + 1 + (k + 1) = row + 1 + 1 + k := by omega
            exact shift ▸ below k line' spans' foundLine foundSpans
      · have newline : Markup.renderSpan stems lineBreak = ['\n'] := rfl
        rw [List.map_cons, List.map_cons, List.intercalate_cons_cons, ← List.map_cons, ← written]
        simp [Markup.render, newline]
  | @token row column gap text rest later token tokens spans here start length _ ih =>
      obtain ⟨first, others, cutHere, count, below, written⟩ := ih
      refine ⟨plain? gap ++ styled text token.onFirstLine :: first, others, ?_, count, ?_, ?_⟩
      · rw [onRow_cons_of_eq here]
        exact .token rfl start length cutHere
      · intro k line spans' foundLine foundSpans
        rw [onRow_cons_of_ne (by omega)]
        exact below k line spans' foundLine foundSpans
      · -- The markup of a token does not tell its line.
        have sameMarkup : Markup.renderSpan stems (styled text token.onFirstLine) =
            Markup.renderSpan stems (styled text token) := rfl
        simp only [Markup.render, List.flatMap_append, List.flatMap_cons, List.map_cons,
          sameMarkup] at written ⊢
        rw [written, intercalate_append_cons, intercalate_append_cons]

end Cuts

/-- Where there is a cut of one line, cutting finds it. -/
theorem ofTokens_of_cuts {encoding : PositionEncoding} {line : Text} {tokens : List Token}
    {spans : List Span} (cuts : Cuts encoding 0 0 line [] tokens spans) :
    ofTokens tokens [line] encoding = .ok spans := by
  have standing : Standing encoding [line] 0 0 [] line [] := ⟨rfl, rfl⟩
  obtain ⟨spans', run⟩ := ofTokens_isOk_iff.mpr
    ⟨inOrder_iff_pairwise.mpr cuts.pairwise.1, cuts.fits standing⟩
  rw [run, cuts.unique (cutsAll_of_ofTokens run)]

end Span

/-! ## Main result -/

namespace Markup

/-- Two streams laid over each other, the lines cut along the outcome, and the spans written as
markup. -/
def ofStreams (stems : ClassStems) (encoding : PositionEncoding) (lines : List Text)
    (primary secondary : List Token) : Except Fault Text := do
  let overlay ← Overlay.merge primary secondary
  let spans ← Span.ofTokens overlay.tokens lines encoding
  return render stems spans

theorem ofStreams_eq_ok_iff {stems : ClassStems} {encoding : PositionEncoding} {lines : List Text}
    {primary secondary : List Token} {markup : Text} :
    ofStreams stems encoding lines primary secondary = .ok markup ↔
      InOrder primary ∧ InOrder secondary ∧
        ∃ spans, Span.ofTokens (Overlay.arranged primary secondary) lines encoding = .ok spans ∧
          markup = render stems spans := by
  simp only [ofStreams, bind_eq_ok_iff]
  constructor
  · rintro ⟨overlay, merged, spans, cut, written⟩
    obtain ⟨primaryOrder, secondaryOrder⟩ := Overlay.merge_isOk_iff.mp ⟨overlay, merged⟩
    rw [(Overlay.merge_tokens merged).1] at cut
    exact ⟨primaryOrder, secondaryOrder, spans, cut, (Except.ok.inj written).symm⟩
  · rintro ⟨primaryOrder, secondaryOrder, spans, cut, rfl⟩
    obtain ⟨overlay, merged⟩ := Overlay.merge_isOk_iff.mpr ⟨primaryOrder, secondaryOrder⟩
    rw [← (Overlay.merge_tokens merged).1] at cut
    exact ⟨overlay, merged, spans, cut, rfl⟩

/-- Two streams in order leave streams in order on every line. -/
theorem ofStreams_onRow {stems : ClassStems} {encoding : PositionEncoding} {line : Text}
    {row : Nat} {primary secondary : List Token} {spans : List Span}
    (primaryOrder : InOrder primary) (secondaryOrder : InOrder secondary)
    (cuts : Span.Cuts encoding 0 0 line []
      (onRow row (Overlay.arranged primary secondary)) spans) :
    ofStreams stems encoding [line] (onRow row primary) (onRow row secondary) =
      .ok (render stems spans) := by
  rw [Overlay.onRow_arranged] at cuts
  exact ofStreams_eq_ok_iff.mpr ⟨inOrder_onRow primaryOrder, inOrder_onRow secondaryOrder, spans,
    Span.ofTokens_of_cuts cuts, rfl⟩

/-- The markup of two streams over some lines is that of each line with the tokens that stand on it,
joined by newlines, and there is such markup for every line. -/
theorem ofStreams_eq_intercalate {stems : ClassStems} {encoding : PositionEncoding}
    {lines : List Text} {primary secondary : List Token} {markup : Text}
    (run : ofStreams stems encoding lines primary secondary = .ok markup) :
    ∃ parts : List Text, markup = ['\n'].intercalate parts ∧ parts.length = lines.length ∧
      ∀ row line part, lines[row]? = some line → parts[row]? = some part →
        ofStreams stems encoding [line] (onRow row primary) (onRow row secondary) = .ok part := by
  obtain ⟨primaryOrder, secondaryOrder, spans, cut, rfl⟩ := ofStreams_eq_ok_iff.mp run
  have cuts := Span.cutsAll_of_ofTokens cut
  cases lines with
  | nil =>
      obtain ⟨-, rfl⟩ := cuts
      exact ⟨[], rfl, rfl, by simp⟩
  | cons first later =>
      obtain ⟨spans', others, cutHere, count, below, written⟩ := Span.Cuts.render_rows stems cuts
      refine ⟨_, written, by simp [count], ?_⟩
      intro row line part foundLine foundPart
      cases row with
      | zero =>
          obtain rfl : first = line := by simpa using foundLine
          obtain rfl : render stems spans' = part := by simpa using foundPart
          exact ofStreams_onRow primaryOrder secondaryOrder cutHere
      | succ row =>
          rw [List.getElem?_cons_succ] at foundLine
          rw [List.map_cons, List.getElem?_cons_succ, List.getElem?_map,
            Option.map_eq_some_iff] at foundPart
          obtain ⟨spans'', foundSpans, rfl⟩ := foundPart
          have shift : 0 + 1 + row = row + 1 := by omega
          exact ofStreams_onRow primaryOrder secondaryOrder
            (shift ▸ below row line spans'' foundLine foundSpans)

/-- The comment on the first line is left out there. One with the same columns, on the third line,
stays. -/
theorem ofStreams_eq_intercalate_comments :
    ofStreams .default .utf16 ["a😀".toList, [], "a😀".toList]
      [⟨0, 1, 2, "string", .empty⟩, ⟨1, 0, 0, "label", .empty⟩]
      [⟨0, 0, 3, "comment", .empty⟩, ⟨2, 0, 3, "comment", .empty⟩] =
      .ok ("a<span class=\"lsp-type-string\">😀</span>\n".toList ++
        "<span class=\"lsp-type-label\"></span>\n".toList ++
        "<span class=\"lsp-type-comment\">a😀</span>".toList) ∧
    ∃ parts : List Text, "a<span class=\"lsp-type-string\">😀</span>\n".toList ++
        "<span class=\"lsp-type-label\"></span>\n".toList ++
        "<span class=\"lsp-type-comment\">a😀</span>".toList = ['\n'].intercalate parts ∧
      parts.length = 3 ∧
      ∀ row line part, ["a😀".toList, [], "a😀".toList][row]? = some line →
        parts[row]? = some part →
        ofStreams .default .utf16 [line]
          (onRow row [⟨0, 1, 2, "string", .empty⟩, ⟨1, 0, 0, "label", .empty⟩])
          (onRow row [⟨0, 0, 3, "comment", .empty⟩, ⟨2, 0, 3, "comment", .empty⟩]) = .ok part := by
  have run : ofStreams .default .utf16 ["a😀".toList, [], "a😀".toList]
      [⟨0, 1, 2, "string", .empty⟩, ⟨1, 0, 0, "label", .empty⟩]
      [⟨0, 0, 3, "comment", .empty⟩, ⟨2, 0, 3, "comment", .empty⟩] =
      .ok ("a<span class=\"lsp-type-string\">😀</span>\n".toList ++
        "<span class=\"lsp-type-label\"></span>\n".toList ++
        "<span class=\"lsp-type-comment\">a😀</span>".toList) := by
    decide +kernel
  exact ⟨run, ofStreams_eq_intercalate run⟩

end Markup

end TokenMarkup
