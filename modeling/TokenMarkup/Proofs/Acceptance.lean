import TokenMarkup.Highlight
import TokenMarkup.Proofs.Decode
import TokenMarkup.Proofs.LexemePieces
import TokenMarkup.Proofs.Overlay

/-!
# Which requests are accepted

`Request.IsWellFormed` says what a text, a stream and lexemes have to be for there to be markup, and
`Request.RefusedBy` gives the reasons why there can be none. Every run is one of the two
(`Request.spans_spec`), and a reason excludes well-formedness. Five steps each check a part of it.
That the later ones have nothing to add about lexemes or about the order of the overlay rests on
three facts: decoded tokens are sorted, the tokens of lexemes fit the lines whatever the encoding,
and what is arranged from two streams in order is in order.
-/

namespace TokenMarkup

namespace Request

/-- Whether the lexemes play no part: there is none, or the language is known to have no lexer. -/
def IgnoresLexemes (request : Request) : Prop :=
  (∃ language, request.language = some language ∧ ¬ language.hasLexer) ∨ request.lexemes = []

/-- Whether the stream, the lexemes and the text go together. -/
structure IsWellFormed (request : Request) (settings : Settings) : Prop where
  /-- The stream is decoded to tokens that do not overlap and lie on the lines of the text. -/
  semantic : ∃ tokens, request.semantic = .ok tokens ∧
    (tokens.IsChain fun a b => a.line = b.line → a.stop ≤ b.start) ∧
    ∀ token ∈ tokens, token.Fits (request.encoding settings) request.lines
  /-- Lexemes that are shown are sound, and none starts before the one in front of it stops. -/
  lexical : request.IgnoresLexemes ∨
    (∀ lexeme ∈ Lexemes.shown request.lexemes, lexeme.IsSound request.lines) ∧
      (Lexemes.shown request.lexemes).IsChain fun a b => a.stop.AtOrBefore b.start

/-- The reasons why there is no markup. None of them is about the overlay as a whole, or about how a
token of a lexeme lies on its line. -/
inductive RefusedBy (request : Request) (settings : Settings) : Fault → Prop
  /-- The stream is malformed. -/
  | stream {position : Nat} {defect : Defect} :
      request.semantic = .error (.malformedStream position defect) →
      RefusedBy request settings (.malformedStream position defect)
  /-- A lexeme that is used is not sound. -/
  | lexeme {before after : List Lexeme} {lexeme : Lexeme} {fault : Fault} :
      ¬ request.IgnoresLexemes → request.lexemes = before ++ lexeme :: after →
      lexeme.Fails request.lines before.length fault → RefusedBy request settings fault
  /-- The tokens of the stream overlap. -/
  | semanticOrder {tokens : List Token} {position line start previousLine previousEnd : Nat} :
      request.semantic = .ok tokens → ¬ InOrder tokens →
      RefusedBy request settings
        (.orderingViolation .semantic position line start previousLine previousEnd)
  /-- The tokens of the lexemes are not in order. -/
  | lexicalOrder {tokens : List Token} {position line start previousLine previousEnd : Nat} :
      request.lexical settings = .ok tokens → ¬ InOrder tokens →
      RefusedBy request settings
        (.orderingViolation .lexical position line start previousLine previousEnd)
  /-- A token of the stream does not fit the lines. -/
  | token {tokens : List Token} {token : Token} {fault : Fault} :
      request.semantic = .ok tokens → token ∈ tokens →
      token.Misplaced (request.encoding settings) request.lines fault →
      RefusedBy request settings fault

variable {request : Request} {settings : Settings} {fault : Fault}

/-! ## Lexical tokens -/

theorem usesLexemes_iff : request.usesLexemes ↔ ¬ request.IgnoresLexemes := by
  rw [usesLexemes, IgnoresLexemes]
  cases request.language <;> simp

theorem lexical_of_ignoresLexemes (ignored : request.IgnoresLexemes) :
    request.lexical settings = .ok [] := by
  rw [lexical, if_neg fun used => usesLexemes_iff.mp used ignored]

theorem lexical_of_not_ignoresLexemes (used : ¬ request.IgnoresLexemes) :
    request.lexical settings =
      Lexemes.tokens request.lexemes request.lines (request.encoding settings) := by
  rw [lexical, if_pos (usesLexemes_iff.mpr used)]

theorem fits_of_lexical {tokens : List Token} (run : request.lexical settings = .ok tokens) :
    ∀ token ∈ tokens, token.Fits (request.encoding settings) request.lines := by
  by_cases ignored : request.IgnoresLexemes
  · rw [lexical_of_ignoresLexemes ignored] at run
    cases run
    simp
  · rw [lexical_of_not_ignoresLexemes ignored] at run
    exact Lexemes.fits_of_tokens run

theorem refusedBy_of_lexical_eq_error (failed : request.lexical settings = .error fault) :
    request.RefusedBy settings fault := by
  by_cases ignored : request.IgnoresLexemes
  · rw [lexical_of_ignoresLexemes ignored] at failed
    cases failed
  · rw [lexical_of_not_ignoresLexemes ignored] at failed
    obtain ⟨before, lexeme, after, same, fails, -⟩ := Lexemes.tokens_eq_error failed
    exact .lexeme ignored same fails

/-- Lexical tokens in order come from lexemes that are well-formed. -/
theorem lexical_inOrder_iff :
    (∃ tokens, request.lexical settings = .ok tokens ∧ InOrder tokens) ↔
      request.IgnoresLexemes ∨
        (∀ lexeme ∈ Lexemes.shown request.lexemes, lexeme.IsSound request.lines) ∧
          (Lexemes.shown request.lexemes).IsChain fun a b => a.stop.AtOrBefore b.start := by
  by_cases ignored : request.IgnoresLexemes
  · exact iff_of_true ⟨[], lexical_of_ignoresLexemes ignored, List.isChain_nil⟩ (.inl ignored)
  · rw [or_iff_right ignored, lexical_of_not_ignoresLexemes ignored,
      ← @Lexemes.tokens_isOk_iff (request.encoding settings)]
    constructor
    · rintro ⟨tokens, run, order⟩
      exact ⟨⟨tokens, run⟩, (Lexemes.inOrder_iff run).mp order⟩
    · rintro ⟨⟨tokens, run⟩, chained⟩
      exact ⟨tokens, run, (Lexemes.inOrder_iff run).mpr chained⟩

/-! ## Semantic tokens -/

theorem inOrder_semantic_iff {tokens : List Token} (run : request.semantic = .ok tokens) :
    InOrder tokens ↔ tokens.IsChain fun a b => a.line = b.line → a.stop ≤ b.start :=
  inOrder_iff_of_sorted (Wire.decode_sorted run)

/-! ## The whole run -/

/-- There are spans if both streams are in order and the text can be cut along what is arranged from
them. -/
theorem spans_eq_ok_iff {spans : List Span} :
    request.spans settings = .ok spans ↔
      ∃ semantic lexical, request.semantic = .ok semantic ∧
        request.lexical settings = .ok lexical ∧ InOrder semantic ∧ InOrder lexical ∧
        Span.ofTokens (Overlay.arranged semantic lexical) request.lines
          (request.encoding settings) = .ok spans := by
  simp only [Request.spans, tokens, overlay, bind_eq_ok_iff, map_eq_ok_iff]
  constructor
  · rintro ⟨_, ⟨overlay, ⟨semantic, semanticRun, lexical, lexicalRun, mergeRun⟩, rfl⟩, cut⟩
    obtain ⟨semanticOrder, lexicalOrder⟩ := Overlay.merge_isOk_iff.mp ⟨overlay, mergeRun⟩
    rw [(Overlay.merge_tokens mergeRun).1] at cut
    exact ⟨semantic, lexical, semanticRun, lexicalRun, semanticOrder, lexicalOrder, cut⟩
  · rintro ⟨semantic, lexical, semanticRun, lexicalRun, semanticOrder, lexicalOrder, cut⟩
    obtain ⟨overlay, mergeRun⟩ := Overlay.merge_isOk_iff.mpr ⟨semanticOrder, lexicalOrder⟩
    rw [← (Overlay.merge_tokens mergeRun).1] at cut
    exact ⟨_, ⟨overlay, ⟨semantic, semanticRun, lexical, lexicalRun, mergeRun⟩, rfl⟩, cut⟩

/-- Behind the overlay only a token of the stream can be at fault. -/
theorem mem_semantic_of_misplaced {semantic lexical : List Token} {overlay : Overlay}
    {token : Token} (lexicalRun : request.lexical settings = .ok lexical)
    (mergeRun : Overlay.merge semantic lexical = .ok overlay) (member : token ∈ overlay.tokens)
    (misplaced : token.Misplaced (request.encoding settings) request.lines fault) :
    token ∈ semantic := by
  rw [(Overlay.merge_tokens mergeRun).1, Overlay.mem_arranged, Overlay.mem_clear] at member
  rcases member with ⟨inLexical, -⟩ | inSemantic
  · exact absurd (fits_of_lexical lexicalRun token inLexical) misplaced.not_fits
  · exact inSemantic

/-- Every run gets to an overlay of two streams in order, or has a reason to stop before. -/
theorem overlay_spec (request : Request) (settings : Settings) :
    (∃ semantic lexical overlay, request.overlay settings = .ok overlay ∧
      request.semantic = .ok semantic ∧ request.lexical settings = .ok lexical ∧
      Overlay.merge semantic lexical = .ok overlay) ∨
    ∃ fault, request.overlay settings = .error fault ∧ request.RefusedBy settings fault := by
  cases semanticRun : request.semantic with
  | error fault =>
      obtain ⟨position, defect, rfl⟩ := Wire.decode_eq_error semanticRun
      exact .inr ⟨_, bind_eq_error_iff.mpr (.inl semanticRun), .stream semanticRun⟩
  | ok semantic =>
      cases lexicalRun : request.lexical settings with
      | error fault =>
          have failed : request.overlay settings = .error fault :=
            bind_eq_error_iff.mpr (.inr ⟨semantic, semanticRun,
              bind_eq_error_iff.mpr (.inl lexicalRun)⟩)
          exact .inr ⟨fault, failed, refusedBy_of_lexical_eq_error lexicalRun⟩
      | ok lexical =>
          have overlaid : request.overlay settings = Overlay.merge semantic lexical := by
            rw [overlay, semanticRun, lexicalRun]
            rfl
          rw [overlaid]
          cases mergeRun : Overlay.merge semantic lexical with
          | error fault =>
              refine .inr ⟨fault, rfl, ?_⟩
              obtain ⟨_, _, _, _, _, ⟨disorder, rfl⟩ | ⟨disorder, rfl⟩⟩ :=
                Overlay.merge_eq_error mergeRun
              · exact .semanticOrder semanticRun disorder
              · exact .lexicalOrder lexicalRun disorder
          | ok overlay =>
              exact .inl ⟨semantic, lexical, overlay, rfl, rfl, rfl, mergeRun⟩

/-- Every run gives spans for a well-formed request, or has a reason to give none. -/
theorem spans_spec (request : Request) (settings : Settings) :
    (∃ spans, request.spans settings = .ok spans ∧ request.IsWellFormed settings) ∨
    ∃ fault, request.spans settings = .error fault ∧ request.RefusedBy settings fault := by
  rcases request.overlay_spec settings with
    ⟨semantic, lexical, overlay, run, semanticRun, lexicalRun, mergeRun⟩ | ⟨fault, failed, refused⟩
  · have tokensRun : request.tokens settings = .ok overlay.tokens :=
      map_eq_ok_iff.mpr ⟨overlay, run, rfl⟩
    obtain ⟨semanticOrder, lexicalOrder⟩ := Overlay.merge_isOk_iff.mp ⟨overlay, mergeRun⟩
    have arranged := (Overlay.merge_tokens mergeRun).1
    rcases Span.ofTokens_spec overlay.tokens request.lines (request.encoding settings) with
      ⟨spans, cut, -, -, fit⟩ | ⟨fault, failed, misfit⟩
    · refine .inl ⟨spans, bind_eq_ok_iff.mpr ⟨_, tokensRun, cut⟩, ?_, ?_⟩
      · have apart := (inOrder_semantic_iff semanticRun).mp semanticOrder
        refine ⟨semantic, semanticRun, apart, ?_⟩
        intro token member
        exact fit token (arranged ▸ Overlay.mem_arranged.mpr (.inr member))
      · exact lexical_inOrder_iff.mp ⟨lexical, lexicalRun, lexicalOrder⟩
    · -- The overlay is in order, so what stops the cut is the place of a token.
      have order : InOrder overlay.tokens :=
        arranged ▸ Overlay.inOrder_arranged semanticOrder lexicalOrder
      obtain ⟨token, member, misplaced⟩ :=
        misfit.exists_misplaced (Frontier.admitsAll_fresh.mpr order)
      have inSemantic := mem_semantic_of_misplaced lexicalRun mergeRun member misplaced
      exact .inr ⟨fault, bind_eq_error_iff.mpr (.inr ⟨_, tokensRun, failed⟩),
        .token semanticRun inSemantic misplaced⟩
  · exact .inr ⟨fault, bind_eq_error_iff.mpr (.inl (map_eq_error_iff.mpr failed)), refused⟩

/-- What is refused for a reason is not well-formed. -/
theorem RefusedBy.not_isWellFormed (refused : request.RefusedBy settings fault) :
    ¬ request.IsWellFormed settings := by
  rintro ⟨⟨tokens, run, apart, fit⟩, lexical⟩
  cases refused with
  | stream failed =>
      rw [run] at failed
      cases failed
  | lexeme used same fails =>
      rcases lexical with ignored | ⟨sound, -⟩
      · exact used ignored
      · have member : _ ∈ Lexemes.shown request.lexemes :=
          List.mem_filter.mpr ⟨by rw [same]; simp, fails.isShown⟩
        exact fails.not_isSound (sound _ member)
  | semanticOrder run' disorder =>
      rw [run, Except.ok.injEq] at run'
      exact disorder (run' ▸ (inOrder_semantic_iff run).mpr apart)
  | lexicalOrder run' disorder =>
      obtain ⟨tokens', run'', order⟩ := lexical_inOrder_iff.mpr lexical
      rw [run', Except.ok.injEq] at run''
      exact disorder (run'' ▸ order)
  | token run' member misplaced =>
      rw [run, Except.ok.injEq] at run'
      exact misplaced.not_fits (fit _ (run' ▸ member))

/-- No reason is a disorder of the overlay. -/
theorem RefusedBy.not_merged {position line start previousLine previousEnd : Nat} :
    ¬ request.RefusedBy settings
      (.orderingViolation .merged position line start previousLine previousEnd) := by
  intro refused
  cases refused with
  | lexeme _ _ fails =>
      cases fails with
      | row _ _ _ _ misfit _ => cases misfit
  | token _ _ misplaced => cases misplaced

/-- There is markup for the well-formed requests and for no others. Without markup there is a reason
that lies in the stream or in a lexeme, and never a disorder of the overlay. -/
theorem markup_isOk_iff_isWellFormed (request : Request) (settings : Settings) :
    ((∃ markup, request.markup settings = .ok markup) ↔ request.IsWellFormed settings) ∧
    ∀ fault, request.markup settings = .error fault →
      request.RefusedBy settings fault ∧
      ∀ position line start previousLine previousEnd,
        fault ≠ .orderingViolation .merged position line start previousLine previousEnd := by
  rcases request.spans_spec settings with ⟨spans, done, wellFormed⟩ | ⟨fault, failed, refused⟩
  · have markup : request.markup settings = .ok (Markup.render settings.stems spans) :=
      map_eq_ok_iff.mpr ⟨spans, done, rfl⟩
    refine ⟨iff_of_true ⟨_, markup⟩ wellFormed, ?_⟩
    intro fault failed
    rw [markup] at failed
    cases failed
  · have noMarkup : request.markup settings = .error fault := map_eq_error_iff.mpr failed
    refine ⟨iff_of_false ?_ refused.not_isWellFormed, ?_⟩
    · rintro ⟨markup, done⟩
      rw [noMarkup] at done
      cases done
    · intro fault' failed'
      rw [noMarkup, Except.error.injEq] at failed'
      subst failed'
      refine ⟨refused, ?_⟩
      rintro _ _ _ _ _ rfl
      exact refused.not_merged

end Request

end TokenMarkup
