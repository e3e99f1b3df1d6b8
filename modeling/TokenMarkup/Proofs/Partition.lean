import TokenMarkup.Proofs.SpanCut

/-!
# Spans are the one partition of the lines

`Span.IsPartition` lists what is expected of the spans of a text: nothing is lost, the styled spans
are the tokens in their places, line breaks divide the rows of spans as newlines divide the lines,
and plain spans are as long as they can be. Cutting gives such spans (`IsPartition.of_cutsAll`), and
there are no others (`IsPartition.unique`).
-/

namespace TokenMarkup.Span

/-! ## Partitions -/

/-- Whether a span is plain text inside a line. -/
def isGap (span : Span) : Bool := span.token.isNone && !span.isLineBreak

/-- Whether every styled span starts where its token says, given the place of the first span. -/
def Placed (encoding : PositionEncoding) : (column : Nat) → List Span → Prop
  | _, [] => True
  | column, span :: rest =>
    (∀ token ∈ span.token, token.start = column) ∧
      Placed encoding (column + encoding.length span.text) rest

/-- What it is for spans to cover what is left of line `number` from `column` on. A styled span is
required to stand where its token starts: a row with the right slices in the wrong places would
agree in all else, and it is `placed` that leaves one row only. -/
structure IsRow (encoding : PositionEncoding) (tokens : List Token) (number column : Nat)
    (line : Text) (row : List Span) : Prop where
  text_eq : row.flatMap Span.text = line
  /-- The styled spans are those of the tokens on this line. -/
  tokens_eq : row.filterMap Span.token = tokens.filter (·.line = number)
  placed : Placed encoding column row
  no_lineBreak : ∀ span ∈ row, ¬ span.isLineBreak

/-- What it is for spans to be the partition of lines along tokens. That a styled span has the text
of its token (`slice_eq`) does not say where it stands, for the same text can occur twice on a line.
`rows` does: there each styled span is at its token's own place, and uniqueness rests on that. -/
structure IsPartition (encoding : PositionEncoding) (tokens : List Token) (lines : List Text)
    (spans : List Span) : Prop where
  /-- Nothing is lost and nothing added. -/
  text_eq : spans.flatMap Span.text = ['\n'].intercalate lines
  /-- The styled spans are the tokens, in order. -/
  tokens_eq : spans.filterMap Span.token = tokens
  /-- Each styled span has the text that its token covers on its own line. -/
  slice_eq : ∀ span ∈ spans, ∀ token ∈ span.token, ∃ line, lines[token.line]? = some line ∧
    encoding.slice line token.start token.stop = .ok span.text
  lineBreak_count : spans.countP isLineBreak = lines.length - 1
  /-- The line breaks stand between the rows of neighbouring lines. -/
  rows : ∃ rows, spans = [lineBreak].intercalate rows ∧ rows.length = lines.length ∧
    ∀ k line row, lines[k]? = some line → rows[k]? = some row →
      IsRow encoding tokens k 0 line row
  plain_ne_nil : ∀ span ∈ spans, span.token = none → span.text ≠ []
  /-- No two plain spans inside a line are neighbours. -/
  apart : spans.IsChain fun a b => ¬ (a.isGap ∧ b.isGap)

/-! ## Spans one by one -/

@[simp] theorem flatMap_text_plain? (text : Text) : (plain? text).flatMap Span.text = text := by
  cases text with
  | nil => rfl
  | cons c rest => simp [plain?_of_ne_nil, plain]

@[simp] theorem filterMap_token_plain? (text : Text) :
    (plain? text).filterMap Span.token = [] := by
  cases text <;> rfl

theorem mem_plain? {text : Text} {span : Span} :
    span ∈ plain? text ↔ text ≠ [] ∧ span = plain text := by
  cases text with
  | nil => simp
  | cons c rest => simp [plain?_of_ne_nil]

@[simp] theorem isLineBreak_lineBreak : lineBreak.isLineBreak := rfl

@[simp] theorem isLineBreak_styled (text : Text) (token : Token) :
    (styled text token).isLineBreak = false := rfl

theorem isLineBreak_plain {text : Text} (noNewline : '\n' ∉ text) :
    (plain text).isLineBreak = false := by
  have other : text ≠ ['\n'] := by
    rintro rfl
    exact noNewline (List.mem_singleton_self _)
  simp [isLineBreak, plain, other]

theorem not_isLineBreak_of_mem_plain? {text : Text} (noNewline : '\n' ∉ text) :
    ∀ span ∈ plain? text, ¬ span.isLineBreak := by
  intro span member
  obtain ⟨-, rfl⟩ := mem_plain?.mp member
  simp [isLineBreak_plain noNewline]

/-- A span that is no gap parts what is in front of it from what is behind. -/
theorem apart_append_cons {text : Text} {span : Span} {spans : List Span}
    (styledOrBreak : span.isGap = false)
    (apart : spans.IsChain fun a b => ¬ (a.isGap ∧ b.isGap)) :
    (plain? text ++ span :: spans).IsChain fun a b => ¬ (a.isGap ∧ b.isGap) := by
  have tail : (span :: spans).IsChain fun a b => ¬ (a.isGap ∧ b.isGap) := by
    rw [List.isChain_cons]
    exact ⟨by simp [styledOrBreak], apart⟩
  cases text with
  | nil => exact tail
  | cons c rest =>
      rw [plain?_of_ne_nil (by simp), List.singleton_append, List.isChain_cons_cons]
      exact ⟨by simp [styledOrBreak], tail⟩

theorem placed_append {encoding : PositionEncoding} {column : Nat} {front back : List Span} :
    Placed encoding column (front ++ back) ↔ Placed encoding column front ∧
      Placed encoding (column + encoding.length (front.flatMap Span.text)) back := by
  induction front generalizing column with
  | nil => simp [Placed]
  | cons span front ih => simp [Placed, ih, Nat.add_assoc, and_assoc]

theorem placed_plain? (encoding : PositionEncoding) (column : Nat) (text : Text) :
    Placed encoding column (plain? text) := by
  cases text with
  | nil => trivial
  | cons c rest => simp [plain?_of_ne_nil, Placed, plain]

theorem intercalate_append_cons {α : Type} (separator front row : List α)
    (rows : List (List α)) :
    separator.intercalate ((front ++ row) :: rows) =
      front ++ separator.intercalate (row :: rows) := by
  cases rows with
  | nil => simp
  | cons next rows => simp [List.intercalate_cons_cons]

namespace IsRow

variable {encoding : PositionEncoding} {tokens : List Token} {number column : Nat}

theorem ofPlain {rest : Text} (noNewline : '\n' ∉ rest)
    (none_here : tokens.filter (·.line = number) = []) :
    IsRow encoding tokens number column rest (plain? rest) where
  text_eq := flatMap_text_plain? rest
  tokens_eq := by rw [filterMap_token_plain?, none_here]
  placed := placed_plain? encoding column rest
  no_lineBreak := not_isLineBreak_of_mem_plain? noNewline

theorem cons {gap text rest : Text} {token : Token} {row : List Span}
    (isRow : IsRow encoding tokens number token.stop rest row) (noNewline : '\n' ∉ gap)
    (here : token.line = number) (start : token.start = column + encoding.length gap)
    (length : token.length = encoding.length text) :
    IsRow encoding (token :: tokens) number column (gap ++ text ++ rest)
      (plain? gap ++ styled text token :: row) where
  text_eq := by simp [styled, isRow.text_eq]
  tokens_eq := by simp [styled, isRow.tokens_eq, here]
  placed := by
    have stop : token.stop = column + encoding.length gap + encoding.length text := by
      rw [Token.stop, start, length]
    rw [placed_append, flatMap_text_plain?]
    refine ⟨placed_plain? encoding column gap, ?_, ?_⟩
    · rintro other ⟨⟩
      exact start
    · exact stop ▸ isRow.placed
  no_lineBreak := by
    intro span member
    rw [List.mem_append, List.mem_cons] at member
    rcases member with inGap | rfl | inRow
    · exact not_isLineBreak_of_mem_plain? noNewline span inGap
    · simp
    · exact isRow.no_lineBreak span inRow

theorem skip {line : Text} {token : Token} {row : List Span}
    (isRow : IsRow encoding tokens number column line row) (elsewhere : token.line ≠ number) :
    IsRow encoding (token :: tokens) number column line row where
  text_eq := isRow.text_eq
  tokens_eq := by rw [isRow.tokens_eq, List.filter_cons_of_neg (by simpa using elsewhere)]
  placed := isRow.placed
  no_lineBreak := isRow.no_lineBreak

end IsRow

/-! ## Cuts are partitions -/

namespace Cuts

variable {encoding : PositionEncoding} {row column : Nat} {rest : Text} {later : List Text}
  {tokens : List Token} {spans : List Span}

/-- Tokens are cut out of the line that is at hand, or of one below. -/
theorem row_le (cuts : Cuts encoding row column rest later tokens spans) :
    ∀ token ∈ tokens, row ≤ token.line := by
  induction cuts with
  | finish => simp
  | next _ ih => exact fun token member => Nat.le_of_succ_le (ih token member)
  | token here _ _ _ ih => exact List.forall_mem_cons.mpr ⟨Nat.le_of_eq here.symm, ih⟩

theorem text_eq (cuts : Cuts encoding row column rest later tokens spans) :
    spans.flatMap Span.text = ['\n'].intercalate (rest :: later) := by
  induction cuts with
  | finish => simp
  | next _ ih => simp [ih, List.intercalate_cons_cons, lineBreak, plain]
  | token _ _ _ _ ih => simp [ih, styled, intercalate_append_cons]

theorem tokens_eq (cuts : Cuts encoding row column rest later tokens spans) :
    spans.filterMap Span.token = tokens := by
  induction cuts with
  | finish => simp
  | next _ ih => simp [ih, lineBreak, plain]
  | token _ _ _ _ ih => simp [ih, styled]

theorem slice_eq {lines : List Text} {before : Text}
    (cuts : Cuts encoding row column rest later tokens spans)
    (standing : Standing encoding lines row column before rest later) :
    ∀ span ∈ spans, ∀ token ∈ span.token, ∃ line, lines[token.line]? = some line ∧
      encoding.slice line token.start token.stop = .ok span.text := by
  induction cuts generalizing before with
  | finish => simp [mem_plain?, plain]
  | next _ ih =>
      intro span member token styledBy
      rw [List.mem_append, List.mem_cons, mem_plain?] at member
      rcases member with ⟨-, rfl⟩ | rfl | member
      · cases styledBy
      · cases styledBy
      · exact ih standing.next span member token styledBy
  | @token row column gap text rest later token tokens spans here start length _ ih =>
      intro span member other styledBy
      rw [List.mem_append, List.mem_cons, mem_plain?] at member
      rcases member with ⟨-, rfl⟩ | rfl | member
      · cases styledBy
      · obtain rfl := Option.some.inj styledBy
        refine ⟨before ++ (gap ++ text ++ rest), here ▸ standing.getElem?, ?_⟩
        have stop := (standing.behind start length).column_eq
        have gapEnd : encoding.length (before ++ gap) = token.start := by
          rw [PositionEncoding.length_append, standing.column_eq, start]
        exact PositionEncoding.slice_eq_ok_iff.mpr
          ⟨before ++ gap, rest, by simp [styled], gapEnd, stop⟩
      · exact ih (standing.behind start length) span member other styledBy

theorem plain_ne_nil (cuts : Cuts encoding row column rest later tokens spans) :
    ∀ span ∈ spans, span.token = none → span.text ≠ [] := by
  induction cuts with
  | finish =>
      intro span member _
      obtain ⟨someText, rfl⟩ := mem_plain?.mp member
      exact someText
  | next _ ih =>
      intro span member unstyled
      rw [List.mem_append, List.mem_cons, mem_plain?] at member
      rcases member with ⟨someText, rfl⟩ | rfl | member
      · exact someText
      · simp [lineBreak, plain]
      · exact ih span member unstyled
  | token _ _ _ _ ih =>
      intro span member unstyled
      rw [List.mem_append, List.mem_cons, mem_plain?] at member
      rcases member with ⟨someText, rfl⟩ | rfl | member
      · exact someText
      · cases unstyled
      · exact ih span member unstyled

theorem apart (cuts : Cuts encoding row column rest later tokens spans) :
    spans.IsChain fun a b => ¬ (a.isGap ∧ b.isGap) := by
  induction cuts with
  | @finish _ _ rest =>
      cases rest with
      | nil => exact List.isChain_nil
      | cons c rest => exact List.isChain_singleton _
  | next _ ih => exact apart_append_cons rfl ih
  | token _ _ _ _ ih => exact apart_append_cons rfl ih

theorem lineBreak_count (cuts : Cuts encoding row column rest later tokens spans)
    (noNewline : '\n' ∉ rest) (noNewlines : ∀ line ∈ later, '\n' ∉ line) :
    spans.countP isLineBreak = later.length := by
  induction cuts with
  | finish => exact List.countP_eq_zero.mpr (not_isLineBreak_of_mem_plain? noNewline)
  | next _ ih =>
      rw [List.forall_mem_cons] at noNewlines
      have none_here := List.countP_eq_zero.mpr (not_isLineBreak_of_mem_plain? noNewline)
      rw [List.countP_append, none_here, List.countP_cons_of_pos isLineBreak_lineBreak,
        ih noNewlines.1 noNewlines.2, List.length_cons, Nat.zero_add]
  | token _ _ _ _ ih =>
      simp only [List.mem_append, not_or] at noNewline
      have none_here := List.countP_eq_zero.mpr (not_isLineBreak_of_mem_plain? noNewline.1.1)
      rw [List.countP_append, none_here, List.countP_cons_of_neg (by simp),
        ih noNewline.2 noNewlines, Nat.zero_add]

/-- The spans fall into rows, divided by the line breaks. -/
theorem rows (cuts : Cuts encoding row column rest later tokens spans)
    (noNewline : '\n' ∉ rest) (noNewlines : ∀ line ∈ later, '\n' ∉ line) :
    ∃ first others, spans = [lineBreak].intercalate (first :: others) ∧
      others.length = later.length ∧ IsRow encoding tokens row column rest first ∧
      ∀ k line below, later[k]? = some line → others[k]? = some below →
        IsRow encoding tokens (row + 1 + k) 0 line below := by
  induction cuts with
  | @finish row column rest =>
      exact ⟨plain? rest, [], by simp, rfl, .ofPlain noNewline rfl, by simp⟩
  | @next row column rest line later tokens spans cuts ih =>
      rw [List.forall_mem_cons] at noNewlines
      obtain ⟨first, others, rfl, count, isRow, below⟩ := ih noNewlines.1 noNewlines.2
      have none_here : tokens.filter (·.line = row) = [] := by
        rw [List.filter_eq_nil_iff]
        intro token member
        have deeper := cuts.row_le token member
        rw [decide_eq_true_eq]
        omega
      refine ⟨plain? rest, first :: others, by simp [List.intercalate_cons_cons], by simp [count],
        .ofPlain noNewline none_here, ?_⟩
      intro k line' row' foundLine foundRow
      cases k with
      | zero =>
          rw [List.getElem?_cons_zero, Option.some.injEq] at foundLine foundRow
          exact foundLine ▸ foundRow ▸ isRow
      | succ k =>
          rw [List.getElem?_cons_succ] at foundLine foundRow
          have shift : row + 1 + (k + 1) = row + 1 + 1 + k := by omega
          exact shift ▸ below k line' row' foundLine foundRow
  | @token row column gap text rest later token tokens spans here start length cuts ih =>
      simp only [List.mem_append, not_or] at noNewline
      obtain ⟨first, others, rfl, count, isRow, below⟩ := ih noNewline.2 noNewlines
      refine ⟨plain? gap ++ styled text token :: first, others, ?_, count,
        isRow.cons noNewline.1.1 here start length, ?_⟩
      · rw [intercalate_append_cons, List.intercalate_cons_cons_left]
      · intro k line row' foundLine foundRow
        exact (below k line row' foundLine foundRow).skip (by omega)

end Cuts

/-- What is cut out of lines is a partition of them. -/
theorem IsPartition.of_cutsAll {encoding : PositionEncoding} {tokens : List Token}
    {lines : List Text} {spans : List Span} (cuts : CutsAll encoding tokens spans lines)
    (noNewlines : ∀ line ∈ lines, '\n' ∉ line) : IsPartition encoding tokens lines spans := by
  cases lines with
  | nil =>
      obtain ⟨rfl, rfl⟩ := cuts
      exact ⟨rfl, rfl, by simp, rfl, ⟨[], rfl, rfl, by simp⟩, by simp, List.isChain_nil⟩
  | cons line later =>
      rw [List.forall_mem_cons] at noNewlines
      have standing : Standing encoding (line :: later) 0 0 [] line later := ⟨rfl, rfl⟩
      obtain ⟨first, others, same, count, isRow, below⟩ :=
        Cuts.rows cuts noNewlines.1 noNewlines.2
      refine ⟨Cuts.text_eq cuts, Cuts.tokens_eq cuts, Cuts.slice_eq cuts standing,
        Cuts.lineBreak_count cuts noNewlines.1 noNewlines.2,
        ⟨first :: others, same, by simp [count], ?_⟩, Cuts.plain_ne_nil cuts, Cuts.apart cuts⟩
      intro k line' row' foundLine foundRow
      cases k with
      | zero =>
          rw [List.getElem?_cons_zero, Option.some.injEq] at foundLine foundRow
          exact foundLine ▸ foundRow ▸ isRow
      | succ k =>
          rw [List.getElem?_cons_succ] at foundLine foundRow
          have shift : k + 1 = 0 + 1 + k := by omega
          exact shift ▸ below k line' row' foundLine foundRow

/-! ## Partitions are cuts -/

/-- A row of spans, as far as it concerns the spans of that row alone. -/
structure IsTidyRow (encoding : PositionEncoding) (number column : Nat) (row : List Span) :
    Prop where
  placed : Placed encoding column row
  covered : ∀ span ∈ row, ∀ token ∈ span.token, token.line = number ∧
    token.length = encoding.length span.text
  plain_ne_nil : ∀ span ∈ row, span.token = none → span.text ≠ []
  /-- Behind a plain span comes a styled one. -/
  styled_behind : row.IsChain fun a b => a.token = none → b.token ≠ none

/-- Whatever closes a line closes it behind a row, too. The gap is a plain span in front of the row
that is still to be laid down. -/
theorem IsTidyRow.cuts {encoding : PositionEncoding} {number column : Nat} {gap : Text}
    {row : List Span} {later : List Text} {tokens : List Token} {tail : List Span}
    (tidy : IsTidyRow encoding number (column + encoding.length gap) row)
    (pending : gap ≠ [] → ∀ span ∈ row.head?, span.token ≠ none)
    (close : ∀ column rest, Cuts encoding number column rest later tokens (plain? rest ++ tail)) :
    Cuts encoding number column (gap ++ row.flatMap Span.text) later
      (row.filterMap Span.token ++ tokens) (plain? gap ++ (row ++ tail)) := by
  induction row generalizing column gap with
  | nil => simpa using close column gap
  | cons span row ih =>
      obtain ⟨⟨start, placed⟩, covered, plain_ne_nil, styled_behind⟩ := tidy
      rw [List.forall_mem_cons] at covered plain_ne_nil
      rw [List.isChain_cons] at styled_behind
      obtain ⟨text, _ | token⟩ := span
      · -- A plain span becomes the gap; none can be pending in front of it.
        have none_pending : gap = [] := by
          by_contra someGap
          exact pending someGap _ rfl rfl
        subst none_pending
        have rest := @ih column text ⟨by simpa using placed, covered.2, plain_ne_nil.2,
          styled_behind.2⟩ (fun _ next found => styled_behind.1 next found rfl)
        rw [plain?_of_ne_nil (plain_ne_nil.1 rfl)] at rest
        simpa [plain] using rest
      · -- A styled span closes the gap in front of it.
        have startEq := start token rfl
        obtain ⟨here, lengthEq⟩ := covered.1 token rfl
        have stop : column + encoding.length gap + encoding.length text = token.stop := by
          rw [Token.stop, startEq, lengthEq]
        have rest := @ih token.stop [] ⟨by simpa [← stop] using placed, covered.2, plain_ne_nil.2,
          styled_behind.2⟩ (by simp)
        simpa [styled] using Cuts.token here startEq lengthEq rest

/-- Tidy rows for all lines, with line breaks between them, are a cut. -/
theorem cuts_of_rows {encoding : PositionEncoding} {number : Nat} {line : Text}
    {later : List Text} {first : List Span} {others : List (List Span)}
    (count : others.length = later.length)
    (tidy : ∀ k row, (first :: others)[k]? = some row → IsTidyRow encoding (number + k) 0 row)
    (texts : (first :: others).map (·.flatMap Span.text) = line :: later) :
    Cuts encoding number 0 line later
      (([lineBreak].intercalate (first :: others)).filterMap Span.token)
      ([lineBreak].intercalate (first :: others)) := by
  induction others generalizing number line later first with
  | nil =>
      obtain ⟨rfl, rfl⟩ : _ ∧ [] = later := List.cons.inj texts
      have cuts := @IsTidyRow.cuts encoding number 0 [] first [] [] [] (tidy 0 first rfl) (by simp)
        (fun _ _ => by simpa using Cuts.finish)
      simpa using cuts
  | cons second others ih =>
      rw [List.map_cons] at texts
      obtain ⟨rfl, below⟩ := List.cons.inj texts
      cases later with
      | nil => cases count
      | cons line' later =>
          have tidyBelow : ∀ k row, (second :: others)[k]? = some row →
              IsTidyRow encoding (number + 1 + k) 0 row := by
            intro k row found
            have shift : number + 1 + k = number + (k + 1) := by omega
            exact shift ▸ tidy (k + 1) row found
          have cutsBelow := ih (by simpa using count) tidyBelow below
          have cuts := @IsTidyRow.cuts encoding number 0 [] first (line' :: later) _ _
            (tidy 0 first rfl) (by simp) (fun _ _ => cutsBelow.next)
          rw [List.intercalate_cons_cons]
          simpa [lineBreak, plain] using cuts

theorem infix_intercalate {row : List Span} {rows : List (List Span)} (member : row ∈ rows) :
    row <:+: [lineBreak].intercalate rows := by
  induction rows with
  | nil => cases member
  | cons first others ih =>
      cases others with
      | nil =>
          rw [List.mem_singleton] at member
          simp [member]
      | cons second others =>
          rw [List.intercalate_cons_cons]
          rcases List.mem_cons.mp member with rfl | inOthers
          · rw [List.append_assoc]
            exact (List.prefix_append _ _).isInfix
          · exact (ih inOthers).trans (List.suffix_append _ _).isInfix

namespace IsPartition

variable {encoding : PositionEncoding} {tokens : List Token} {lines : List Text}
  {spans : List Span}

theorem tidyRow (partition : IsPartition encoding tokens lines spans) {number : Nat} {line : Text}
    {row : List Span} (inside : row <:+: spans) (isRow : IsRow encoding tokens number 0 line row) :
    IsTidyRow encoding number 0 row where
  placed := isRow.placed
  covered := by
    intro span member token styledBy
    have inRow : token ∈ row.filterMap Span.token :=
      List.mem_filterMap.mpr ⟨span, member, styledBy⟩
    rw [isRow.tokens_eq, List.mem_filter, decide_eq_true_eq] at inRow
    refine ⟨inRow.2, ?_⟩
    obtain ⟨line, -, cut⟩ := partition.slice_eq span (inside.subset member) token styledBy
    obtain ⟨before, after, -, start, stop⟩ := PositionEncoding.slice_eq_ok_iff.mp cut
    rw [PositionEncoding.length_append, start, Token.stop] at stop
    omega
  plain_ne_nil := fun span member => partition.plain_ne_nil span (inside.subset member)
  styled_behind := by
    have apart : row.IsChain fun a b => ¬ (a.isGap ∧ b.isGap) :=
      List.IsChain.infix partition.apart inside
    refine apart.imp_of_mem_imp ?_
    intro a b inRow inRow' notBoth unstyled unstyled'
    have noBreak := isRow.no_lineBreak a inRow
    have noBreak' := isRow.no_lineBreak b inRow'
    simp [isGap, unstyled, unstyled', noBreak, noBreak'] at notBoth

theorem cutsAll (partition : IsPartition encoding tokens lines spans) :
    CutsAll encoding tokens spans lines := by
  obtain ⟨rows, rfl, count, isRow⟩ := partition.rows
  have tidy : ∀ k row, rows[k]? = some row → IsTidyRow encoding k 0 row := by
    intro k row found
    have inside : k < lines.length := count ▸ (List.getElem?_eq_some_iff.mp found).1
    exact partition.tidyRow (infix_intercalate (List.mem_of_getElem? found))
      (isRow k lines[k] row (List.getElem?_eq_getElem inside) found)
  have texts : rows.map (·.flatMap Span.text) = lines := by
    apply List.ext_getElem (by simpa using count)
    intro k inRows inLines
    rw [List.getElem_map]
    have inRows' : k < rows.length := by simpa using inRows
    exact (isRow k lines[k] rows[k] (List.getElem?_eq_getElem inLines)
      (List.getElem?_eq_getElem inRows')).text_eq
  cases rows with
  | nil =>
      cases lines with
      | nil => exact ⟨partition.tokens_eq.symm, rfl⟩
      | cons line later => cases count
  | cons first others =>
      cases lines with
      | nil => cases count
      | cons line later =>
          have cuts := cuts_of_rows (by simpa using count)
            (fun k row found => (Nat.zero_add k).symm ▸ tidy k row found) texts
          rw [partition.tokens_eq] at cuts
          exact cuts

end IsPartition

/-! ## There is one cut -/

namespace Cuts

variable {encoding : PositionEncoding} {row column : Nat} {rest : Text} {later : List Text}
  {tokens : List Token} {spans : List Span}

theorem token_inv {token : Token}
    (cuts : Cuts encoding row column rest later (token :: tokens) spans)
    (here : token.line = row) :
    ∃ gap text rest' spans', rest = gap ++ text ++ rest' ∧
      token.start = column + encoding.length gap ∧ token.length = encoding.length text ∧
      Cuts encoding row token.stop rest' later tokens spans' ∧
      spans = plain? gap ++ styled text token :: spans' := by
  cases cuts with
  | next below =>
      have deeper := below.row_le token (by simp)
      omega
  | token _ start length behind => exact ⟨_, _, _, _, rfl, start, length, behind, rfl⟩

theorem next_inv {line : Text}
    (cuts : Cuts encoding row column rest (line :: later) tokens spans)
    (none_here : ∀ token ∈ tokens, row < token.line) :
    ∃ spans', Cuts encoding (row + 1) 0 line later tokens spans' ∧
      spans = plain? rest ++ lineBreak :: spans' := by
  cases cuts with
  | next below => exact ⟨_, below, rfl⟩
  | token here _ _ _ =>
      have elsewhere := none_here _ (List.mem_cons_self)
      omega

theorem unique {spans' : List Span} (cuts : Cuts encoding row column rest later tokens spans)
    (cuts' : Cuts encoding row column rest later tokens spans') : spans = spans' := by
  -- Where the first cut goes on, the second has no choice: `next` and `token` exclude each other by
  -- the line of the token in front, and the lengths of gap and text are given.
  induction cuts generalizing spans' with
  | finish =>
      cases cuts'
      rfl
  | next below ih =>
      obtain ⟨others, below', rfl⟩ := cuts'.next_inv below.row_le
      rw [ih below']
  | @token row column gap text rest later token tokens spans here start length _ ih =>
      obtain ⟨gap', text', rest', others, same, start', length', behind', rfl⟩ :=
        cuts'.token_inv here
      rw [List.append_assoc, List.append_assoc] at same
      obtain ⟨rfl, behind⟩ := PositionEncoding.append_inj_of_length_eq same
        (show encoding.length gap = encoding.length gap' by omega)
      obtain ⟨rfl, rfl⟩ := PositionEncoding.append_inj_of_length_eq behind
        (length.symm.trans length')
      rw [ih behind']

end Cuts

theorem IsPartition.unique {encoding : PositionEncoding} {tokens : List Token} {lines : List Text}
    {spans spans' : List Span} (partition : IsPartition encoding tokens lines spans)
    (partition' : IsPartition encoding tokens lines spans') : spans = spans' := by
  cases lines with
  | nil =>
      obtain ⟨-, rfl⟩ := partition.cutsAll
      obtain ⟨-, rfl⟩ := partition'.cutsAll
      rfl
  | cons line later => exact Cuts.unique partition.cutsAll partition'.cutsAll

/-! ## Main result -/

/-- Cutting lines along tokens gives the partition of the lines along the tokens, the only one that
there is. -/
theorem ofTokens_isPartition {tokens : List Token} {lines : List Text}
    {encoding : PositionEncoding} {spans : List Span}
    (noNewlines : ∀ line ∈ lines, '\n' ∉ line)
    (run : ofTokens tokens lines encoding = .ok spans) :
    IsPartition encoding tokens lines spans ∧
      ∀ others, IsPartition encoding tokens lines others → others = spans := by
  have partition := IsPartition.of_cutsAll (cutsAll_of_ofTokens run) noNewlines
  exact ⟨partition, fun others partition' => partition'.unique partition⟩

/-- A character of two units, an empty line and a mark at the end of the last line. -/
theorem ofTokens_isPartition_surrogates :
    (∀ line ∈ ["a😀b".toList, [], "c".toList], '\n' ∉ line) ∧
    ofTokens [⟨0, 1, 2, "string", .empty⟩, ⟨2, 1, 0, "label", .empty⟩]
      ["a😀b".toList, [], "c".toList] .utf16 =
      .ok [plain ['a'], styled ['😀'] ⟨0, 1, 2, "string", .empty⟩, plain ['b'], lineBreak, lineBreak,
        plain ['c'], styled [] ⟨2, 1, 0, "label", .empty⟩] ∧
    IsPartition .utf16 [⟨0, 1, 2, "string", .empty⟩, ⟨2, 1, 0, "label", .empty⟩]
      ["a😀b".toList, [], "c".toList]
      [plain ['a'], styled ['😀'] ⟨0, 1, 2, "string", .empty⟩, plain ['b'], lineBreak, lineBreak,
        plain ['c'], styled [] ⟨2, 1, 0, "label", .empty⟩] :=
  ⟨by decide, by rfl, (ofTokens_isPartition (by decide) (by rfl)).1⟩

end TokenMarkup.Span
