import TokenMarkup.Proofs.Acceptance
import TokenMarkup.Proofs.Fidelity

/-!
# Lexemes never touch the semantic tokens

A text is cut along its semantic tokens, and once more with lexemes. The second cut is the first
one with some of its gaps cut further (`Span.Subdivides`): spans of lexemes go into gaps or, if they
are empty, between any two spans, and all that is not a gap stays where and as it is. The cut of the
semantic tokens alone lags behind: it knows of a gap only at the gap's end, by which time the other
cut has gone through it piece by piece. `Span.Cuts.subdivides` carries the text of the gap that was
passed so far along.
-/

namespace TokenMarkup

/-! ## Interleavings -/

/-- Whether the third list is made of the first two, each in its own order. -/
inductive Interleaving {α : Type} : List α → List α → List α → Prop
  | nil : Interleaving [] [] []
  | left {a : α} {as bs cs : List α} : Interleaving as bs cs → Interleaving (a :: as) bs (a :: cs)
  | right {b : α} {as bs cs : List α} : Interleaving as bs cs → Interleaving as (b :: bs) (b :: cs)

namespace Interleaving

variable {α : Type}

theorem nil_left (bs : List α) : Interleaving [] bs bs := by
  induction bs with
  | nil => exact .nil
  | cons b bs ih => exact .right ih

theorem nil_right (as : List α) : Interleaving as [] as := by
  induction as with
  | nil => exact .nil
  | cons a as ih => exact .left ih

theorem mem_of_mem_right {as bs cs : List α} (mixed : Interleaving as bs cs) {b : α}
    (member : b ∈ bs) : b ∈ cs := by
  induction mixed with
  | nil => exact member
  | left _ ih => exact List.mem_cons_of_mem _ (ih member)
  | right _ ih =>
      rcases List.mem_cons.mp member with rfl | inRest
      · exact List.mem_cons_self
      · exact List.mem_cons_of_mem _ (ih inRest)

/-- Two sorted lists that are sorted together keep their orders. -/
theorem mergeSort {le : α → α → Bool} (trans : ∀ a b c, le a b → le b c → le a c)
    (total : ∀ a b, le a b || le b a) {as bs : List α} (firstSorted : as.Pairwise (le · ·))
    (secondSorted : bs.Pairwise (le · ·)) : Interleaving as bs ((bs ++ as).mergeSort le) := by
  induction bs generalizing as with
  | nil =>
      rw [List.nil_append, List.mergeSort_of_pairwise firstSorted]
      exact nil_right as
  | cons b bs ihSecond =>
      induction as with
      | nil =>
          rw [List.append_nil, List.mergeSort_of_pairwise secondSorted]
          exact nil_left _
      | cons a as ihFirst =>
          obtain ⟨leastFirst, firstRest⟩ := List.pairwise_cons.mp firstSorted
          obtain ⟨leastSecond, secondRest⟩ := List.pairwise_cons.mp secondSorted
          by_cases ahead : le b a
          · have least : ∀ c ∈ bs ++ a :: as, le b c := by
              intro c member
              rcases List.mem_append.mp member with inSecond | inFirst
              · exact leastSecond c inSecond
              · rcases List.mem_cons.mp inFirst with rfl | inRest
                · exact ahead
                · exact trans b a c ahead (leastFirst c inRest)
            have sorted := @mergeSort_append_cons _ _ trans total b [] _ (by simp) least
            rw [List.nil_append] at sorted
            rw [List.cons_append, sorted]
            exact .right (ihSecond firstSorted secondRest)
          · have behind : ∀ c ∈ b :: bs, ¬ le c a := by
              intro c member before
              rcases List.mem_cons.mp member with rfl | inRest
              · exact ahead before
              · exact ahead (trans b c a (leastSecond c inRest) before)
            rw [mergeSort_append_cons trans total behind leastFirst]
            exact .left (ihFirst firstRest)

end Interleaving

/-- What is arranged from two streams in order is made of the first one and of what is clear of it
in the second. -/
theorem Overlay.interleaving_arranged {primary secondary : List Token}
    (primaryOrder : InOrder primary) (secondaryOrder : InOrder secondary) :
    Interleaving primary (clear primary secondary) (arranged primary secondary) :=
  .mergeSort Token.placeLe_trans Token.placeLe_total (inOrder_iff_sorted.mp primaryOrder).1
    ((inOrder_iff_sorted.mp secondaryOrder).1.filter _)

theorem Overlay.arranged_nil {primary : List Token} (order : InOrder primary) :
    arranged primary [] = primary :=
  List.mergeSort_of_pairwise (inOrder_iff_sorted.mp order).1

namespace Span

/-! ## Subdivided gaps -/

/-- Whether a token covers the span. -/
def isStyled (span : Span) : Bool := span.token.isSome

/-- Whether a span stands somewhere in a row of spans, with the text `before` in front of it. -/
def OccursBehind (before : Text) (span : Span) (spans : List Span) : Prop :=
  ∃ front back, spans = front ++ span :: back ∧ front.flatMap Span.text = before

/-- Whether a gap in a row of spans holds a text that has the text `before` in front of it. -/
def GapHolds (before text : Text) (spans : List Span) : Prop :=
  ∃ outside gap inside after, OccursBehind outside gap spans ∧ gap.isGap ∧
    before = outside ++ inside ∧ gap.text = inside ++ text ++ after

/-- Whether a row of spans is a coarser one with its gaps cut further, by spans that are added.
The text `passed` is the first part of the gap that comes next in the coarse row. -/
inductive Subdivides : (passed : Text) → (coarse added spans : List Span) → Prop
  | nil : Subdivides [] [] [] []
  /-- A span of both rows that is no gap. -/
  | keep {span : Span} {coarse added spans : List Span} : span.isGap = false →
      Subdivides [] coarse added spans → Subdivides [] (span :: coarse) added (span :: spans)
  /-- A part of a gap that stays plain. -/
  | plain {passed text : Text} {coarse added spans : List Span} :
      Subdivides (passed ++ text) coarse added spans →
      Subdivides passed coarse added (plain text :: spans)
  /-- A part of a gap that becomes styled. -/
  | styled {passed text : Text} {token : Token} {coarse added spans : List Span} :
      Subdivides (passed ++ text) coarse added spans →
      Subdivides passed coarse (styled text token :: added) (styled text token :: spans)
  /-- The end of a gap. -/
  | close {passed : Text} {coarse added spans : List Span} : (Span.plain passed).isGap →
      Subdivides [] coarse added spans → Subdivides passed (Span.plain passed :: coarse) added spans

theorem occursBehind_head (span : Span) (spans : List Span) :
    OccursBehind [] span (span :: spans) :=
  ⟨[], spans, rfl, rfl⟩

theorem OccursBehind.cons {before : Text} {span : Span} {spans : List Span}
    (occurs : OccursBehind before span spans) (first : Span) :
    OccursBehind (first.text ++ before) span (first :: spans) := by
  obtain ⟨front, back, rfl, rfl⟩ := occurs
  exact ⟨first :: front, back, rfl, rfl⟩

theorem occursBehind_cons_iff {before : Text} {span first : Span} {spans : List Span} :
    OccursBehind before span (first :: spans) ↔
      before = [] ∧ span = first ∨
        ∃ rest, before = first.text ++ rest ∧ OccursBehind rest span spans := by
  constructor
  · rintro ⟨front, back, same, rfl⟩
    cases front with
    | nil =>
        obtain ⟨rfl, -⟩ := List.cons.inj same
        exact .inl ⟨rfl, rfl⟩
    | cons _ front =>
        obtain ⟨rfl, rest⟩ := List.cons.inj same
        exact .inr ⟨_, rfl, front, back, rest, rfl⟩
  · rintro (⟨rfl, rfl⟩ | ⟨rest, rfl, occurs⟩)
    · exact occursBehind_head span spans
    · exact occurs.cons first

theorem GapHolds.cons {before text : Text} {spans : List Span}
    (holds : GapHolds before text spans) (first : Span) :
    GapHolds (first.text ++ before) text (first :: spans) := by
  obtain ⟨outside, gap, inside, after, occurs, isGap, rfl, held⟩ := holds
  exact ⟨_, gap, inside, after, occurs.cons first, isGap, by rw [List.append_assoc], held⟩

namespace Subdivides

variable {passed : Text} {coarse added spans : List Span}

theorem interleaving (divided : Subdivides passed coarse added spans) :
    Interleaving (coarse.filter isStyled) added (spans.filter isStyled) := by
  induction divided with
  | nil => exact .nil
  | @keep span _ _ _ _ _ ih =>
      by_cases covered : span.isStyled
      · rw [List.filter_cons_of_pos covered, List.filter_cons_of_pos covered]
        exact .left ih
      · rw [List.filter_cons_of_neg covered, List.filter_cons_of_neg covered]
        exact ih
  | plain _ ih => exact ih
  | styled _ ih => exact .right ih
  | close _ _ ih => exact ih

/-- What is no gap of the coarse row stays behind the same text. -/
theorem occursBehind (divided : Subdivides passed coarse added spans) {before : Text} {span : Span}
    (noGap : span.isGap = false) (occurs : OccursBehind before span coarse) :
    ∃ rest, before = passed ++ rest ∧ OccursBehind rest span spans := by
  induction divided generalizing before with
  | nil =>
      obtain ⟨front, back, same, -⟩ := occurs
      simp at same
  | @keep first _ _ _ _ _ ih =>
      rcases occursBehind_cons_iff.mp occurs with ⟨rfl, rfl⟩ | ⟨_, rfl, further⟩
      · exact ⟨[], rfl, occursBehind_head _ _⟩
      · obtain ⟨rest, rfl, stays⟩ := ih further
        exact ⟨_, rfl, stays.cons first⟩
  | plain _ ih | styled _ ih =>
      obtain ⟨rest, rfl, stays⟩ := ih occurs
      exact ⟨_, List.append_assoc _ _ _, stays.cons _⟩
  | close gap _ ih =>
      rcases occursBehind_cons_iff.mp occurs with ⟨-, rfl⟩ | ⟨_, rfl, further⟩
      · rw [gap] at noGap
        cases noGap
      · obtain ⟨_, rfl, stays⟩ := ih further
        exact ⟨_, rfl, stays⟩

/-- What was passed of a gap is the first part of the gap that comes next. -/
theorem exists_gap (divided : Subdivides passed coarse added spans) (somePassed : passed ≠ []) :
    ∃ more others, (Span.plain (passed ++ more)).isGap ∧
      coarse = Span.plain (passed ++ more) :: others := by
  induction divided with
  | nil => exact absurd rfl somePassed
  | keep => exact absurd rfl somePassed
  | plain _ ih | styled _ ih =>
      obtain ⟨more, others, gap, rfl⟩ := ih (by simp [somePassed])
      rw [List.append_assoc] at gap ⊢
      exact ⟨_, others, gap, rfl⟩
  | @close _ coarse _ _ gap => exact ⟨[], coarse, by simpa using gap, by simp⟩

/-- A span that is added is empty, or it stands where a gap of the coarse row holds its text. -/
theorem gapHolds (divided : Subdivides passed coarse added spans) {span : Span}
    (member : span ∈ added) :
    span.text = [] ∨ ∃ before, OccursBehind before span spans ∧
      GapHolds (passed ++ before) span.text coarse := by
  induction divided with
  | nil => cases member
  | @keep first _ _ _ _ _ ih =>
      refine (ih member).imp_right ?_
      rintro ⟨before, occurs, holds⟩
      exact ⟨_, occurs.cons first, holds.cons first⟩
  | plain _ ih =>
      refine (ih member).imp_right ?_
      rintro ⟨before, occurs, holds⟩
      exact ⟨_, occurs.cons _, by rwa [List.append_assoc] at holds⟩
  | @styled passed text token _ _ _ divided ih =>
      rcases List.mem_cons.mp member with rfl | further
      · by_cases empty : text = []
        · exact .inl empty
        · obtain ⟨more, others, gap, rfl⟩ := divided.exists_gap (by simp [empty])
          exact .inr ⟨[], occursBehind_head _ _, [], _, passed, more, occursBehind_head _ _, gap,
            by simp, rfl⟩
      · refine (ih further).imp_right ?_
        rintro ⟨before, occurs, holds⟩
        exact ⟨_, occurs.cons _, by rwa [List.append_assoc] at holds⟩
  | close _ _ ih =>
      refine (ih member).imp_right ?_
      rintro ⟨before, occurs, holds⟩
      exact ⟨before, occurs, holds.cons _⟩

end Subdivides

/-! ## Two cuts -/

theorem Subdivides.plain?_append {passed gap : Text} {coarse added spans : List Span}
    (noNewline : '\n' ∉ passed ++ gap) (divided : Subdivides [] coarse added spans) :
    Subdivides passed (plain? (passed ++ gap) ++ coarse) added (plain? gap ++ spans) := by
  have closed : Subdivides (passed ++ gap) (plain? (passed ++ gap) ++ coarse) added spans := by
    by_cases empty : passed ++ gap = []
    · rw [empty]
      exact divided
    · rw [plain?_of_ne_nil empty]
      have gap : (Span.plain (passed ++ gap)).isGap := by
        rw [isGap, isLineBreak_plain noNewline]
        rfl
      exact .close gap divided
  by_cases empty : gap = []
  · subst empty
    rwa [List.append_nil] at closed ⊢
  · rw [plain?_of_ne_nil empty]
    exact .plain closed

/-- Lines that are cut along two streams of tokens can be cut along the first one alone, into spans
that the others subdivide. -/
theorem Cuts.subdivides {encoding : PositionEncoding} {row column column' : Nat}
    {passed rest : Text} {later : List Text} {tokens first second : List Token} {spans : List Span}
    (cuts : Cuts encoding row column rest later tokens spans)
    (mixed : Interleaving first second tokens) (lag : column = column' + encoding.length passed)
    (noNewline : '\n' ∉ passed ++ rest) (noNewlines : ∀ line ∈ later, '\n' ∉ line) :
    ∃ coarse added, Cuts encoding row column' (passed ++ rest) later first coarse ∧
      Subdivides passed coarse added spans ∧ added.filterMap Span.token = second := by
  induction cuts generalizing column' passed first second with
  | finish =>
      cases mixed
      have divided := Subdivides.plain?_append noNewline .nil
      rw [List.append_nil, List.append_nil] at divided
      exact ⟨_, [], .finish, divided, rfl⟩
  | @next row column rest line later tokens spans _ ih =>
      rw [List.forall_mem_cons] at noNewlines
      obtain ⟨coarse, added, below, divided, shown⟩ :=
        @ih 0 [] first second mixed rfl noNewlines.1 noNewlines.2
      exact ⟨_, added, .next below, .plain?_append noNewline (.keep rfl divided), shown⟩
  | @token row column gap text rest later token tokens spans here start length _ ih =>
      rw [← List.append_assoc, ← List.append_assoc] at noNewline ⊢
      cases mixed with
      | left mixed =>
          obtain ⟨coarse, added, behind, divided, shown⟩ :=
            @ih token.stop [] _ _ mixed rfl (fun member => noNewline (by simp_all)) noNewlines
          refine ⟨_, added, .token here ?_ length behind, ?_, shown⟩
          · rw [start, lag, PositionEncoding.length_append, Nat.add_assoc]
          · exact .plain?_append (fun member => noNewline (by simp_all)) (.keep rfl divided)
      | right mixed =>
          have lag' : token.stop = column' + encoding.length (passed ++ gap ++ text) := by
            simp only [Token.stop, start, length, lag, PositionEncoding.length_append,
              Nat.add_assoc]
          obtain ⟨coarse, added, behind, divided, shown⟩ := ih mixed lag' noNewline noNewlines
          refine ⟨coarse, Span.styled text token :: added, behind, ?_, congrArg (token :: ·) shown⟩
          by_cases empty : gap = []
          · subst empty
            exact .styled (by simpa using divided)
          · rw [plain?_of_ne_nil empty]
            exact .plain (.styled divided)

/-! ## What is shown -/

/-- Whether a span shows a token: it has the text that the token covers on its line. -/
def Shows (encoding : PositionEncoding) (lines : List Text) (token : Token) (span : Span) : Prop :=
  span.token = some token ∧ ∃ line, lines[token.line]? = some line ∧
    encoding.slice line token.start token.stop = .ok span.text

theorem forall₂_shows {encoding : PositionEncoding} {lines : List Text} {spans : List Span}
    (slices : ∀ span ∈ spans, ∀ token ∈ span.token, ∃ line, lines[token.line]? = some line ∧
      encoding.slice line token.start token.stop = .ok span.text) :
    List.Forall₂ (Shows encoding lines) (spans.filterMap Span.token) (spans.filter isStyled) := by
  induction spans with
  | nil => exact .nil
  | cons span spans ih =>
      rw [List.forall_mem_cons] at slices
      cases covered : span.token with
      | none =>
          rw [List.filterMap_cons_none covered,
            List.filter_cons_of_neg (by simp [isStyled, covered])]
          exact ih slices.2
      | some token =>
          rw [List.filterMap_cons_some covered,
            List.filter_cons_of_pos (by simp [isStyled, covered])]
          exact .cons ⟨covered, slices.1 token covered⟩ (ih slices.2)

/-- What it is for spans to show tokens in addition to those that other spans show. -/
structure IsSupplement (encoding : PositionEncoding) (lines : List Text)
    (primary secondary : List Token) (coarse spans : List Span) : Prop where
  /-- The styled spans that were there show the primary tokens. -/
  primary_shown : List.Forall₂ (Shows encoding lines) primary (coarse.filter isStyled)
  /-- The styled spans are made of those that were there and those of the secondary tokens, each of
  which is empty or lies inside of one gap. -/
  secondary_shown : ∃ added, List.Forall₂ (Shows encoding lines) secondary added ∧
    Interleaving (coarse.filter isStyled) added (spans.filter isStyled) ∧
    ∀ span ∈ added, span.text = [] ∨
      ∃ before, OccursBehind before span spans ∧ GapHolds before span.text coarse
  /-- All that is no gap, styled spans and line breaks, stays where it was. -/
  stays : ∀ before span, span.isGap = false → OccursBehind before span coarse →
    OccursBehind before span spans

/-- Text that can be cut along what is arranged from two streams in order can be cut along the
primary one alone, and the spans of the first cut are a supplement to those of the second. -/
theorem ofTokens_isSupplement {encoding : PositionEncoding} {lines : List Text}
    {primary secondary : List Token} {spans : List Span} (someLine : lines ≠ [])
    (noNewlines : ∀ line ∈ lines, '\n' ∉ line) (primaryOrder : InOrder primary)
    (secondaryOrder : InOrder secondary)
    (run : ofTokens (Overlay.arranged primary secondary) lines encoding = .ok spans) :
    ∃ coarse, ofTokens primary lines encoding = .ok coarse ∧
      IsSupplement encoding lines primary (Overlay.clear primary secondary) coarse spans := by
  have fit := (ofTokens_isOk_iff.mp ⟨spans, run⟩).2
  obtain ⟨coarse, run'⟩ := ofTokens_isOk_iff.mpr ⟨primaryOrder, fun token member =>
    fit token (Overlay.mem_arranged.mpr (.inr member))⟩
  obtain ⟨line, later, rfl⟩ := List.exists_cons_of_ne_nil someLine
  rw [List.forall_mem_cons] at noNewlines
  have cuts : Cuts encoding 0 0 line later _ spans := cutsAll_of_ofTokens run
  have cuts' : Cuts encoding 0 0 line later primary coarse := cutsAll_of_ofTokens run'
  have standing : Standing encoding (line :: later) 0 0 [] line later := ⟨rfl, rfl⟩
  obtain ⟨coarse', added, cuts'', divided, shown⟩ := @Cuts.subdivides _ _ _ 0 [] _ _ _ _ _ _ cuts
    (Overlay.interleaving_arranged primaryOrder secondaryOrder) rfl noNewlines.1 noNewlines.2
  obtain rfl := cuts'.unique cuts''
  refine ⟨coarse, run', ?_, ⟨added, ?_, divided.interleaving, fun _ => divided.gapHolds⟩, ?_⟩
  · exact cuts'.tokens_eq ▸ forall₂_shows (cuts'.slice_eq standing)
  · have fromSpans : ∀ span ∈ added, span ∈ spans.filter isStyled :=
      fun _ => divided.interleaving.mem_of_mem_right
    have slices := forall₂_shows fun span member =>
      cuts.slice_eq standing span (List.mem_filter.mp (fromSpans span member)).1
    rwa [shown, List.filter_eq_self.mpr fun span member =>
      (List.mem_filter.mp (fromSpans span member)).2] at slices
  · intro before span noGap occurs
    obtain ⟨_, rfl, stays⟩ := divided.occursBehind noGap occurs
    exact stays

end Span

/-! ## Main result -/

namespace Request

theorem lexical_eq_ite (request : Request) (settings : Settings) :
    request.lexical settings =
      if request.language.all Language.hasLexer then
        Lexemes.tokens request.lexemes request.lines (request.encoding settings)
      else .ok [] := by
  rw [lexical, usesLexemes]
  cases request.lexemes with
  | nil =>
      rw [List.isEmpty_nil, Bool.not_true, Bool.and_false, if_neg (by simp)]
      split <;> rfl
  | cons lexeme rest => rw [List.isEmpty_cons, Bool.not_false, Bool.and_true]

/-- Semantic tokens have precedence over lexemes: without its lexemes a request still has spans, and
with them it has the same styled spans in the same places and, in gaps between them, those of the
lexical tokens that conflict with no semantic one. -/
theorem spans_isSupplement {request : Request} {settings : Settings} {spans : List Span}
    (run : request.spans settings = .ok spans) :
    ∃ semantic lexical coarse, request.semantic = .ok semantic ∧
      (if request.language.all Language.hasLexer then
        Lexemes.tokens request.lexemes request.lines (request.encoding settings)
      else .ok []) = .ok lexical ∧
      { request with lexemes := [] }.spans settings = .ok coarse ∧
      Span.IsSupplement (request.encoding settings) request.lines semantic
        (lexical.filter fun token => ∀ other ∈ semantic, ¬ other.Conflicts token) coarse spans := by
  obtain ⟨semantic, lexical, semanticRun, lexicalRun, semanticOrder, lexicalOrder, cut⟩ :=
    spans_eq_ok_iff.mp run
  obtain ⟨coarse, cut', supplement⟩ := Span.ofTokens_isSupplement
    (Text.split_ne_nil '\n' request.text) (Text.not_mem_of_mem_split '\n' request.text)
    semanticOrder lexicalOrder cut
  refine ⟨semantic, lexical, coarse, semanticRun, request.lexical_eq_ite settings ▸ lexicalRun, ?_,
    supplement⟩
  refine spans_eq_ok_iff.mpr ⟨semantic, [], semanticRun, lexical_of_ignoresLexemes (.inr rfl),
    semanticOrder, List.isChain_nil, ?_⟩
  rw [Overlay.arranged_nil semanticOrder]
  exact cut'

/-- A comment over three lines, the second of them empty, between two names. A keyword on the first
name gives way. -/
theorem spans_isSupplement_comment :
    ∃ spans, Request.spans
        { text := "ab/*\n\n*/ c".toList, stream := [0, 0, 2, 0, 0, 2, 3, 1, 0, 0],
          legend := ⟨["variable"], []⟩,
          lexemes := [⟨.keyword, ⟨1, 2⟩, ⟨1, 3⟩⟩, ⟨.comment, ⟨1, 3⟩, ⟨3, 3⟩⟩] } {} = .ok spans ∧
      Span.IsSupplement .utf16 ["ab/*".toList, [], "*/ c".toList]
        [⟨0, 0, 2, "variable", .empty⟩, ⟨2, 3, 1, "variable", .empty⟩]
        [⟨0, 2, 2, "comment", .empty⟩, ⟨1, 0, 0, "comment", .empty⟩, ⟨2, 0, 2, "comment", .empty⟩]
        [.styled ['a', 'b'] ⟨0, 0, 2, "variable", .empty⟩, .plain ['/', '*'], .lineBreak,
          .lineBreak, .plain ['*', '/', ' '], .styled ['c'] ⟨2, 3, 1, "variable", .empty⟩]
        spans := by
  have run : Request.spans
      { text := "ab/*\n\n*/ c".toList, stream := [0, 0, 2, 0, 0, 2, 3, 1, 0, 0],
        legend := ⟨["variable"], []⟩,
        lexemes := [⟨.keyword, ⟨1, 2⟩, ⟨1, 3⟩⟩, ⟨.comment, ⟨1, 3⟩, ⟨3, 3⟩⟩] } {} =
      .ok [.styled ['a', 'b'] ⟨0, 0, 2, "variable", .empty⟩,
        .styled ['/', '*'] ⟨0, 2, 2, "comment", .empty⟩, .lineBreak,
        .styled [] ⟨1, 0, 0, "comment", .empty⟩, .lineBreak,
        .styled ['*', '/'] ⟨2, 0, 2, "comment", .empty⟩, .plain [' '],
        .styled ['c'] ⟨2, 3, 1, "variable", .empty⟩] := by
    decide +kernel
  obtain ⟨semantic, lexical, coarse, semanticRun, lexicalRun, alone, supplement⟩ :=
    spans_isSupplement run
  obtain rfl : semantic = [⟨0, 0, 2, "variable", .empty⟩, ⟨2, 3, 1, "variable", .empty⟩] :=
    Except.ok.inj (semanticRun.symm.trans (by decide +kernel))
  obtain rfl : lexical = [⟨0, 1, 1, "keyword", .empty⟩, ⟨0, 2, 2, "comment", .empty⟩,
      ⟨1, 0, 0, "comment", .empty⟩, ⟨2, 0, 2, "comment", .empty⟩] :=
    Except.ok.inj (lexicalRun.symm.trans (by decide +kernel))
  obtain rfl : coarse = [.styled ['a', 'b'] ⟨0, 0, 2, "variable", .empty⟩, .plain ['/', '*'],
      .lineBreak, .lineBreak, .plain ['*', '/', ' '],
      .styled ['c'] ⟨2, 3, 1, "variable", .empty⟩] :=
    Except.ok.inj (alone.symm.trans (by decide +kernel))
  exact ⟨_, run, supplement⟩

end Request

end TokenMarkup
