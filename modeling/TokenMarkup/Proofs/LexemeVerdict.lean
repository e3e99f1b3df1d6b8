import TokenMarkup.Proofs.Disorder
import TokenMarkup.Proofs.LexemeText
import TokenMarkup.Proofs.Recount

/-!
# The verdict on lexemes

Lexemes are turned into tokens line by line, in the units of a target encoding. Whether that can be
done, and what is wrong if not, is a matter of lines and bytes alone, so all targets come to one
verdict: `Lexeme.Refused` says in coordinates why a lexeme is refused, and `Lexemes.hasOneVerdict`
that the fault is always that of the first lexeme that is, whatever the target. The last test of a
piece, whether it stops before it starts, has nothing left to find (`Lexeme.start_le_stop`).

What the tokens are like does depend on the target, but not whether they are in order
(`Lexemes.passes_check_iff`).
-/

namespace TokenMarkup

open PositionEncoding (utf8)

/-! ## What is wrong with a lexeme -/

namespace Lexeme

variable {lines : List Text} {lexeme : Lexeme} {position row : Nat} {fault fault' : Fault}

/-- Whether a coordinate is zero, or the stop precedes the start. -/
def IsIllRanged (lexeme : Lexeme) : Prop :=
  lexeme.start.line = 0 ∨ lexeme.start.column = 0 ∨ lexeme.stop.line = 0 ∨ lexeme.stop.column = 0 ∨
    lexeme.stop.line < lexeme.start.line ∨
    lexeme.stop.line = lexeme.start.line ∧ lexeme.stop.column < lexeme.start.column

/-- What is wrong with where a lexeme lies on the line `row`: there is no such line, or the column
at which the lexeme starts or stops there is inside a character or behind the end of the line. -/
inductive StraysOn (lines : List Text) (lexeme : Lexeme) (row : Nat) : Fault → Prop
  | line : lines.length ≤ row → StraysOn lines lexeme row (.lineOutOfRange row lines.length)
  | start {line : Text} : lines[row]? = some line → row + 1 = lexeme.start.line →
      ¬ utf8.IsBoundary line (lexeme.start.column - 1) →
      StraysOn lines lexeme row
        (.encodingBoundary (some row) (lexeme.start.column - 1) .utf8 (utf8.length line))
  | stop {line : Text} : lines[row]? = some line → row + 1 = lexeme.stop.line →
      (row + 1 = lexeme.start.line → utf8.IsBoundary line (lexeme.start.column - 1)) →
      ¬ utf8.IsBoundary line (lexeme.stop.column - 1) →
      StraysOn lines lexeme row
        (.encodingBoundary (some row) (lexeme.stop.column - 1) .utf8 (utf8.length line))

/-- Why a lexeme, number `position` of its list, is refused. The range is looked at first, and then
one line after the other. -/
inductive Refused (lines : List Text) (position : Nat) (lexeme : Lexeme) : Fault → Prop
  | range : lexeme.isShown → lexeme.IsIllRanged →
      Refused lines position lexeme (.invalidRange position lexeme.start lexeme.stop)
  | row {row : Nat} {fault : Fault} : lexeme.isShown → ¬ lexeme.IsIllRanged →
      lexeme.start.line ≤ row + 1 → row + 1 ≤ lexeme.stop.line → lexeme.StraysOn lines row fault →
      (∀ above, lexeme.start.line ≤ above + 1 → above < row →
        ∀ other, ¬ lexeme.StraysOn lines above other) →
      Refused lines position lexeme fault

theorem isIllRanged_iff : lexeme.IsIllRanged ↔ ¬ lexeme.hasValidRange := by
  rw [hasValidRange_iff]
  simp only [IsIllRanged, Location.isOneBased, Location.AtOrBefore, Bool.and_eq_true,
    decide_eq_true_eq]
  omega

theorem misfit_iff_straysOn : lexeme.Misfit lines row fault ↔ lexeme.StraysOn lines row fault := by
  constructor
  · intro misfit
    cases misfit with
    | line missing => exact .line missing
    | start found wrong =>
        rw [isBoundary_columns_fst, Classical.not_imp] at wrong
        rw [columns, if_pos wrong.1]
        exact .start found wrong.1 wrong.2
    | stop found starts wrong =>
        rw [isBoundary_columns_fst] at starts
        rw [isBoundary_columns_snd, Classical.not_imp] at wrong
        rw [columns, if_pos wrong.1]
        exact .stop found wrong.1 starts wrong.2
  · intro strays
    cases strays with
    | line missing => exact .line missing
    | @start line found here wrong =>
        have column : (lexeme.columns row line).1 = lexeme.start.column - 1 := if_pos here
        rw [← column] at wrong ⊢
        exact .start found wrong
    | @stop line found here starts wrong =>
        have column : (lexeme.columns row line).2 = lexeme.stop.column - 1 := if_pos here
        rw [← column] at wrong ⊢
        exact .stop found (isBoundary_columns_fst.mpr starts) wrong

theorem fails_iff_refused :
    lexeme.Fails lines position fault ↔ lexeme.Refused lines position fault := by
  constructor
  · intro fails
    cases fails with
    | range shown invalid => exact .range shown (isIllRanged_iff.mpr invalid)
    | row shown valid above below misfit first =>
        refine .row shown (mt isIllRanged_iff.mp (not_not_intro valid)) (by omega) below
          (misfit_iff_straysOn.mp misfit) fun earlier atLeast less other strays => ?_
        exact first earlier (by omega) less other (misfit_iff_straysOn.mpr strays)
  · intro refused
    cases refused with
    | range shown invalid => exact .range shown (isIllRanged_iff.mp invalid)
    | row shown valid above below strays first =>
        refine .row shown (not_not.mp (mt isIllRanged_iff.mpr valid)) (by omega) below
          (misfit_iff_straysOn.mpr strays) fun earlier atLeast less other misfit => ?_
        exact first earlier (by omega) less other (misfit_iff_straysOn.mp misfit)

/-- On a line one thing is looked at after the other, so there is one fault at most. -/
theorem StraysOn.unique (strays : lexeme.StraysOn lines row fault)
    (strays' : lexeme.StraysOn lines row fault') : fault = fault' := by
  cases strays <;> cases strays' <;> grind

theorem Refused.unique (refused : lexeme.Refused lines position fault)
    (refused' : lexeme.Refused lines position fault') : fault = fault' := by
  cases refused with
  | range _ invalid =>
      cases refused' with
      | range => rfl
      | row _ valid => exact absurd invalid valid
  | @row row _ _ valid above below strays first =>
      cases refused' with
      | range _ invalid => exact absurd invalid valid
      | @row row' _ _ _ above' below' strays' first' =>
          -- Neither line is above the other, for on the lines above there is nothing wrong.
          rcases Nat.lt_trichotomy row row' with less | rfl | less
          · exact absurd strays (first' row above less _)
          · exact strays.unique strays'
          · exact absurd strays' (first row' above' less _)

/-! ## The run along the lexemes -/

/-- A lexeme with a valid range never stops before it starts on a line, in whatever units. -/
theorem start_le_stop (valid : ¬ lexeme.IsIllRanged) {target : PositionEncoding} {line : Text}
    {start stop : Nat}
    (starts : PositionEncoding.convert line (lexeme.columns row line).1 .utf8 target = .ok start)
    (stops : PositionEncoding.convert line (lexeme.columns row line).2 .utf8 target = .ok stop) :
    start ≤ stop := by
  have hasValidRange : lexeme.hasValidRange := not_not.mp (mt isIllRanged_iff.mpr valid)
  obtain ⟨before, after, same, measured, -⟩ := PositionEncoding.convert_eq_ok_iff.mp starts
  have inBytes : (lexeme.columns row line).1 ≤ (lexeme.columns row line).2 :=
    columns_le hasValidRange ⟨before, after, same, measured⟩
  exact (PositionEncoding.convert_le_iff starts stops).mp inBytes

theorem pieces_isOk_iff {target : PositionEncoding} :
    (∃ tokens, lexeme.pieces target lines position = .ok tokens) ↔
      (lexeme.isShown → lexeme.IsSound lines) := by
  rcases lexeme.pieces_spec target lines position with
    ⟨tokens, done, grouped, -⟩ | ⟨fault, failed, fails⟩
  · exact iff_of_true ⟨tokens, done⟩ fun shown => (grouped shown).isSound
  · refine iff_of_false ?_ fun sound => fails.not_isSound (sound fails.isShown)
    rintro ⟨tokens, done⟩
    cases done.symm.trans failed

theorem pieces_eq_error_iff {target : PositionEncoding} :
    lexeme.pieces target lines position = .error fault ↔ lexeme.Refused lines position fault := by
  rcases lexeme.pieces_spec target lines position with
    ⟨tokens, done, -⟩ | ⟨fault', failed, fails⟩
  · rw [done]
    refine iff_of_false nofun fun refused => ?_
    have fails := fails_iff_refused.mpr refused
    exact fails.not_isSound (pieces_isOk_iff.mp ⟨tokens, done⟩ fails.isShown)
  · rw [failed, Except.error.injEq]
    have refused' := fails_iff_refused.mp fails
    exact ⟨fun same => same ▸ refused', fun refused => refused'.unique refused⟩

end Lexeme

/-- In one encoding there is one way to count a token. -/
theorem Token.IsRecount.eq_of_same {encoding : PositionEncoding} {lines : List Text} {a b : Token}
    (recount : a.IsRecount encoding encoding lines b) : a = b := by
  obtain ⟨before, text, after, -, start, length, rfl⟩ := Token.isRecount_iff.mp recount
  rw [← start, ← length]

namespace Lexemes

variable {lines : List Text} {lexemes : List Lexeme} {target : PositionEncoding}

/-- Lexemes are refused for the first of them that is. -/
theorem tokensFrom_eq_error_iff {position : Nat} {fault : Fault} :
    tokensFrom target lines position lexemes = .error fault ↔
      FirstFault (fun before => ∀ earlier ∈ before, earlier.isShown → earlier.IsSound lines)
        (fun before lexeme => lexeme.Refused lines (position + before.length)) lexemes fault := by
  induction lexemes generalizing position with
  | nil => exact iff_of_false nofun not_firstFault_nil
  | cons lexeme rest ih =>
      have shift (before : List Lexeme) :
          position + (lexeme :: before).length = position + 1 + before.length := by
        rw [List.length_cons, Nat.add_comm before.length, Nat.add_assoc]
      rw [tokensFrom, firstFault_cons_iff, bind_eq_error_iff]
      simp only [List.forall_mem_cons, firstFault_and_iff, shift, ← ih, bind_eq_error_iff,
        Lexeme.pieces_eq_error_iff, List.length_nil, Nat.add_zero]
      rw [← @Lexeme.pieces_isOk_iff _ _ position target]
      constructor
      · rintro (refused | ⟨tokens, done, failed | ⟨others, -, impossible⟩⟩)
        · exact .inl ⟨by simp, refused⟩
        · exact .inr ⟨⟨tokens, done⟩, failed⟩
        · cases impossible
      · rintro (⟨-, refused⟩ | ⟨⟨tokens, done⟩, failed⟩)
        · exact .inl refused
        · exact .inr ⟨tokens, done, .inl failed⟩

theorem tokens_eq_error_iff {fault : Fault} :
    tokens lexemes lines target = .error fault ↔
      FirstFault (fun before => ∀ earlier ∈ before, earlier.isShown → earlier.IsSound lines)
        (fun before lexeme => lexeme.Refused lines before.length) lexemes fault := by
  rw [tokens, tokensFrom_eq_error_iff]
  simp only [Nat.zero_add]

/-- What is said of lexemes on some lines, whatever the target. -/
structure HasOneVerdict (lexemes : List Lexeme) (lines : List Text) : Prop where
  accepted : ∀ source target, (∃ result, tokens lexemes lines source = .ok result) ↔
    ∃ result, tokens lexemes lines target = .ok result
  refused : ∀ source target fault, tokens lexemes lines source = .error fault ↔
    tokens lexemes lines target = .error fault
  /-- The fault is that of the first lexeme that is shown and not sound. -/
  first : ∀ target fault, tokens lexemes lines target = .error fault ↔
    FirstFault (fun before => ∀ earlier ∈ before, earlier.isShown → earlier.IsSound lines)
      (fun before lexeme => lexeme.Refused lines before.length) lexemes fault
  /-- Once the range of a lexeme has been looked at, no piece of it stops before it starts. -/
  forward : ∀ lexeme ∈ lexemes, ¬ lexeme.IsIllRanged → ∀ target row line start stop,
    PositionEncoding.convert line (lexeme.columns row line).1 .utf8 target = .ok start →
    PositionEncoding.convert line (lexeme.columns row line).2 .utf8 target = .ok stop →
    ¬ stop < start
  /-- Tokens for two targets differ only in the units in which they are counted. -/
  recounted : ∀ source target result result', tokens lexemes lines source = .ok result →
    tokens lexemes lines target = .ok result' →
    List.Forall₂ (Token.IsRecount source target lines) result result'

theorem hasOneVerdict (lexemes : List Lexeme) (lines : List Text) :
    HasOneVerdict lexemes lines where
  accepted _ _ := tokens_isOk_iff.trans tokens_isOk_iff.symm
  refused _ _ _ := tokens_eq_error_iff.trans tokens_eq_error_iff.symm
  first _ _ := tokens_eq_error_iff
  forward _ _ valid _ _ _ _ _ starts stops :=
    Nat.not_lt.mpr (Lexeme.start_le_stop valid starts stops)
  recounted _ _ _ _ run run' := forall₂_isRecount run run'

/-! ## Order -/

/-- Lexemes that are not shown leave no trace in the tokens. -/
theorem tokens_of_shown_eq {others : List Lexeme} {result : List Token}
    (same : shown others = shown lexemes) (run : tokens lexemes lines target = .ok result) :
    tokens others lines target = .ok result := by
  obtain ⟨result', run'⟩ : ∃ result', tokens others lines target = .ok result' := by
    rw [tokens_isOk_iff, same]
    exact tokens_isOk_iff.mp ⟨result, run⟩
  have recounts := forall₂_isRecount_of_shown_eq same run run'
  have equal : result = result' := by
    rw [← List.forall₂_eq_eq_eq]
    exact recounts.imp fun _ _ recount => recount.eq_of_same
  rw [run', equal]

/-- The tokens of lexemes pass the check of their order, on their own and in a merge with whatever
is in order, if and only if each lexeme that is shown starts where the last one in front of it that
is shown stops, or behind. Lexemes that are not shown may stand anywhere in the list. -/
theorem passes_check_iff {result : List Token} (run : tokens lexemes lines target = .ok result) :
    ((∃ last, result.foldlM Frontier.accept { stream := .lexical } = .ok last) ↔
      (shown lexemes).IsChain fun a b => a.stop.AtOrBefore b.start) ∧
    (∀ primary, InOrder primary →
      ((∃ overlay, Overlay.merge primary result = .ok overlay) ↔
        (shown lexemes).IsChain fun a b => a.stop.AtOrBefore b.start)) ∧
    ∀ others, shown others = shown lexemes → tokens others lines target = .ok result := by
  rw [← inOrder_iff run]
  refine ⟨?_, ?_, fun others same => tokens_of_shown_eq same run⟩
  · exact Frontier.foldlM_accept_eq_ok_iff.trans Frontier.admitsAll_fresh
  · intro primary order
    exact Overlay.merge_isOk_iff.trans (and_iff_right order)

/-- A comment over an empty line and a keyword right behind it. The lexeme of unknown kind between
them lies nowhere. -/
theorem passes_check_iff_comment :
    tokens [⟨.comment, ⟨1, 2⟩, ⟨3, 7⟩⟩, ⟨.unknown, ⟨9, 9⟩, ⟨0, 0⟩⟩, ⟨.keyword, ⟨3, 7⟩, ⟨3, 8⟩⟩]
        (Text.lines "a/*é\n\n😀*/b".toList) .utf16 =
      .ok [⟨0, 1, 3, "comment", .empty⟩, ⟨1, 0, 0, "comment", .empty⟩, ⟨2, 0, 4, "comment", .empty⟩,
        ⟨2, 4, 1, "keyword", .empty⟩] ∧
    ∃ overlay, Overlay.merge [⟨1, 0, 0, "macro", .empty⟩]
      [⟨0, 1, 3, "comment", .empty⟩, ⟨1, 0, 0, "comment", .empty⟩, ⟨2, 0, 4, "comment", .empty⟩,
        ⟨2, 4, 1, "keyword", .empty⟩] = .ok overlay := by
  have run : tokens [⟨.comment, ⟨1, 2⟩, ⟨3, 7⟩⟩, ⟨.unknown, ⟨9, 9⟩, ⟨0, 0⟩⟩,
        ⟨.keyword, ⟨3, 7⟩, ⟨3, 8⟩⟩] (Text.lines "a/*é\n\n😀*/b".toList) .utf16 =
      .ok [⟨0, 1, 3, "comment", .empty⟩, ⟨1, 0, 0, "comment", .empty⟩, ⟨2, 0, 4, "comment", .empty⟩,
        ⟨2, 4, 1, "keyword", .empty⟩] := by
    decide +kernel
  have chained : (shown [⟨.comment, ⟨1, 2⟩, ⟨3, 7⟩⟩, ⟨.unknown, ⟨9, 9⟩, ⟨0, 0⟩⟩,
      ⟨.keyword, ⟨3, 7⟩, ⟨3, 8⟩⟩]).IsChain fun a b => a.stop.AtOrBefore b.start :=
    List.isChain_pair.mpr (.inr ⟨rfl, Nat.le_refl 7⟩)
  exact ⟨run, ((passes_check_iff run).2.1 _ (by decide)).mpr chained⟩

end Lexemes

end TokenMarkup
