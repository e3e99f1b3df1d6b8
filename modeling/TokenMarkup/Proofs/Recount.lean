import Mathlib.Data.List.Forall2
import TokenMarkup.Proofs.Acceptance
import TokenMarkup.Proofs.Partition

/-!
# The same tokens in other units

A token can be counted anew in the units of another encoding (`Token.IsRecount`). Every step of a
run compares positions of one line with each other or cuts a line at them, and conversion keeps the
order of positions (`PositionEncoding.convert_le_iff`), so two runs that differ only in the units go
side by side: lexemes become recounted tokens (`Lexemes.forall₂_isRecount`), the same tokens
conflict and the overlay is sorted alike (`Overlay.forall₂_arranged`), and lines are cut at the same
places (`Span.Cuts.recount`). Spans still hold the positions of their tokens, but neither their
texts nor the markup show them.
-/

namespace TokenMarkup

/-! ## Related lists -/

section Related

variable {α β γ : Type} {R : α → β → Prop}

theorem forall₂_of_common {S : α → γ → Prop} {T : β → γ → Prop} {as : List α} {bs : List β}
    {cs : List γ} (left : List.Forall₂ R as bs) (right : List.Forall₂ S as cs)
    (join : ∀ a b c, R a b → S a c → T b c) : List.Forall₂ T bs cs := by
  induction left generalizing cs with
  | nil =>
      cases right
      exact .nil
  | cons first _ ih =>
      cases right with
      | cons first' rest' => exact .cons (join _ _ _ first first') (ih rest')

theorem forall_mem_iff_of_forall₂ {P : α → Prop} {Q : β → Prop} {as : List α} {bs : List β}
    (related : List.Forall₂ R as bs) (same : ∀ a b, R a b → (P a ↔ Q b)) :
    (∀ a ∈ as, P a) ↔ ∀ b ∈ bs, Q b := by
  induction related with
  | nil => simp
  | cons first _ ih => rw [List.forall_mem_cons, List.forall_mem_cons, same _ _ first, ih]

theorem isChain_iff_of_forall₂ {S : α → α → Prop} {S' : β → β → Prop} {as : List α} {bs : List β}
    (related : List.Forall₂ R as bs)
    (same : ∀ a a' b b', R a b → R a' b' → (S a a' ↔ S' b b')) :
    as.IsChain S ↔ bs.IsChain S' := by
  induction related with
  | nil => simp
  | cons first rest ih =>
      cases rest with
      | nil => simp
      | cons second rest =>
          rw [List.isChain_cons_cons, List.isChain_cons_cons, same _ _ _ _ first second, ih]

/-- Sorting goes alike in two lists whose elements compare alike. -/
theorem forall₂_mergeSort {le : α → α → Bool} {le' : β → β → Bool} {as : List α} {bs : List β}
    (related : List.Forall₂ R as bs)
    (same : ∀ a a' b b', R a b → R a' b' → le a a' = le' b b') :
    List.Forall₂ R (as.mergeSort le) (bs.mergeSort le') := by
  -- Both are the sort of the list of pairs, seen from one side and from the other.
  obtain ⟨length, pair⟩ := List.forall₂_iff_zip.mp related
  have left : (as.zip bs).map Prod.fst = as := List.map_fst_zip (Nat.le_of_eq length)
  have right : (as.zip bs).map Prod.snd = bs := List.map_snd_zip (Nat.le_of_eq length.symm)
  have sortLeft : ((as.zip bs).mergeSort fun p q => le p.1 q.1).map Prod.fst =
      ((as.zip bs).map Prod.fst).mergeSort le :=
    List.map_mergeSort fun p _ q _ => rfl
  have sortRight : ((as.zip bs).mergeSort fun p q => le p.1 q.1).map Prod.snd =
      ((as.zip bs).map Prod.snd).mergeSort le' :=
    List.map_mergeSort fun p inPairs q inPairs' => same _ _ _ _ (pair inPairs) (pair inPairs')
  rw [left] at sortLeft
  rw [right] at sortRight
  rw [← sortLeft, ← sortRight, List.forall₂_map_left_iff, List.forall₂_map_right_iff,
    List.forall₂_same]
  intro p member
  exact pair (List.mem_mergeSort.mp member)

end Related

/-! ## Positions -/

/-- Conversion keeps the order of positions, and never makes two of them one. -/
theorem PositionEncoding.convert_le_iff {source target : PositionEncoding} {line : Text}
    {i i' j j' : Nat} (first : convert line i source target = .ok i')
    (second : convert line j source target = .ok j') : i ≤ j ↔ i' ≤ j' := by
  obtain ⟨before, after, same, rfl, rfl⟩ := convert_eq_ok_iff.mp first
  obtain ⟨before', after', same', rfl, rfl⟩ := convert_eq_ok_iff.mp second
  exact length_le_length_iff source target (same.symm.trans same')

namespace Token

/-- Whether a token on one of the lines is another one with its start and its stop counted in units
of `target` instead of `source`. -/
structure IsRecount (source target : PositionEncoding) (lines : List Text) (token result : Token) :
    Prop where
  placed : ∃ line, lines[token.line]? = some line ∧
    PositionEncoding.convert line token.start source target = .ok result.start ∧
    PositionEncoding.convert line token.stop source target = .ok result.stop
  line_eq : result.line = token.line
  type_eq : result.type = token.type
  modifiers_eq : result.modifiers = token.modifiers

/-- A token and its recount measure one stretch of a line. -/
theorem isRecount_iff {source target : PositionEncoding} {lines : List Text}
    {token result : Token} :
    token.IsRecount source target lines result ↔
      ∃ before text after, lines[token.line]? = some (before ++ text ++ after) ∧
        token.start = source.length before ∧ token.length = source.length text ∧
        result = ⟨token.line, target.length before, target.length text, token.type,
          token.modifiers⟩ := by
  constructor
  · rintro ⟨⟨line, found, start, stop⟩, lineEq, typeEq, modifiersEq⟩
    obtain ⟨before, after, rfl, startEq, startEq'⟩ := PositionEncoding.convert_eq_ok_iff.mp start
    obtain ⟨front, after', same, stopEq, stopEq'⟩ := PositionEncoding.convert_eq_ok_iff.mp stop
    obtain ⟨text, rfl, rfl⟩ := PositionEncoding.exists_append_of_length_le same
      (show source.length before ≤ source.length front by
        rw [startEq, stopEq, Token.stop]
        exact Nat.le_add_right _ _)
    rw [PositionEncoding.length_append, startEq, Token.stop] at stopEq
    rw [PositionEncoding.length_append, startEq', Token.stop] at stopEq'
    refine ⟨before, text, after', by rw [found, List.append_assoc], startEq.symm, by omega, ?_⟩
    have lengthEq : target.length text = result.length := by omega
    rw [← lineEq, startEq', lengthEq, ← typeEq, ← modifiersEq]
  · rintro ⟨before, text, after, found, startEq, lengthEq, rfl⟩
    refine ⟨⟨_, found, ?_, ?_⟩, rfl, rfl, rfl⟩
    · exact PositionEncoding.convert_eq_ok_iff.mpr
        ⟨before, text ++ after, by simp, startEq.symm, rfl⟩
    · exact PositionEncoding.convert_eq_ok_iff.mpr
        ⟨before ++ text, after, rfl, by simp [stop, startEq, lengthEq], by simp [stop]⟩

namespace IsRecount

variable {source target : PositionEncoding} {lines : List Text} {a a' b b' : Token}

theorem symm (recount : a.IsRecount source target lines a') :
    a'.IsRecount target source lines a := by
  obtain ⟨before, text, after, found, startEq, lengthEq, rfl⟩ := isRecount_iff.mp recount
  refine isRecount_iff.mpr ⟨before, text, after, found, rfl, rfl, ?_⟩
  cases a
  simp_all

theorem fits (recount : a.IsRecount source target lines a') : a'.Fits target lines := by
  obtain ⟨before, text, after, found, -, -, rfl⟩ := isRecount_iff.mp recount
  exact ⟨_, found, ⟨before, text ++ after, by simp, rfl⟩, before ++ text, after, rfl,
    by simp [stop]⟩

/-- Units of both encodings compare starts and stops on a line alike. -/
theorem compare (recount : a.IsRecount source target lines a')
    (recount' : b.IsRecount source target lines b') (sameLine : a.line = b.line) :
    (a.start ≤ b.start ↔ a'.start ≤ b'.start) ∧ (a.stop ≤ b.start ↔ a'.stop ≤ b'.start) := by
  obtain ⟨line, found, start, stop⟩ := recount.placed
  obtain ⟨line', found', start', -⟩ := recount'.placed
  rw [← sameLine, found, Option.some.injEq] at found'
  subst found'
  exact ⟨PositionEncoding.convert_le_iff start start', PositionEncoding.convert_le_iff stop start'⟩

theorem endsBefore_iff (recount : a.IsRecount source target lines a')
    (recount' : b.IsRecount source target lines b') : a.EndsBefore b ↔ a'.EndsBefore b' := by
  rw [EndsBefore, EndsBefore, recount.line_eq, recount'.line_eq]
  by_cases sameLine : a.line = b.line
  · rw [(recount.compare recount' sameLine).2]
  · simp [sameLine]

theorem conflicts_iff (recount : a.IsRecount source target lines a')
    (recount' : b.IsRecount source target lines b') : a.Conflicts b ↔ a'.Conflicts b' := by
  rw [Conflicts, Conflicts, recount.line_eq, recount'.line_eq]
  by_cases sameLine : a.line = b.line
  · rw [← Nat.not_le, ← Nat.not_le, (recount.compare recount' sameLine).2,
      (recount'.compare recount sameLine.symm).2, Nat.not_le, Nat.not_le]
  · simp [sameLine]

theorem length_eq_zero_iff (recount : a.IsRecount source target lines a') :
    a.length = 0 ↔ a'.length = 0 := by
  have empty := (recount.compare recount rfl).2
  simp only [stop] at empty
  omega

theorem placeLe_eq (recount : a.IsRecount source target lines a')
    (recount' : b.IsRecount source target lines b') : a.placeLe b = a'.placeLe b' := by
  rw [placeLe, placeLe, decide_eq_decide, place_le_place_iff, place_le_place_iff,
    recount.line_eq, recount'.line_eq, recount.length_eq_zero_iff, ne_eq,
    recount'.length_eq_zero_iff]
  by_cases sameLine : a.line = b.line
  · have forth := (recount.compare recount' sameLine).1
    have back := (recount'.compare recount sameLine.symm).1
    omega
  · simp [sameLine]

end IsRecount

end Token

variable {source target : PositionEncoding} {lines : List Text}

theorem inOrder_iff_of_isRecount {tokens tokens' : List Token}
    (recounts : List.Forall₂ (Token.IsRecount source target lines) tokens tokens') :
    InOrder tokens ↔ InOrder tokens' :=
  isChain_iff_of_forall₂ recounts fun _ _ _ _ recount recount' => recount.endsBefore_iff recount'

theorem fits_of_isRecount {tokens tokens' : List Token}
    (recounts : List.Forall₂ (Token.IsRecount source target lines) tokens tokens') :
    ∀ token ∈ tokens', token.Fits target lines :=
  (forall_mem_iff_of_forall₂ recounts fun _ _ recount => iff_of_true trivial recount.fits).mp
    fun _ _ => trivial

/-! ## Lexemes -/

theorem Lexeme.IsPiece.isRecount {lexeme : Lexeme} {type : String} {row : Nat} {a b : Token}
    (piece : lexeme.IsPiece source lines type row a)
    (piece' : lexeme.IsPiece target lines type row b) : a.IsRecount source target lines b := by
  obtain ⟨before, text, after, found, covered, rfl⟩ := piece
  obtain ⟨before', text', after', found', covered', rfl⟩ := piece'
  rw [found, Option.some.injEq] at found'
  rw [← found', covered, Prod.mk.injEq] at covered'
  obtain ⟨rfl, rest⟩ := PositionEncoding.append_inj_of_length_eq
    (show before ++ (text ++ after) = before' ++ (text' ++ after') by simpa using found')
    covered'.1
  obtain ⟨rfl, -⟩ := PositionEncoding.append_inj_of_length_eq rest
    (show PositionEncoding.utf8.length text = PositionEncoding.utf8.length text' by
      simpa using covered'.2)
  exact Token.isRecount_iff.mpr ⟨before, text, after, found, rfl, rfl, rfl⟩

theorem Lexeme.IsGroup.forall₂_isRecount {lexeme : Lexeme} {tokens tokens' : List Token}
    (group : lexeme.IsGroup source lines tokens) (group' : lexeme.IsGroup target lines tokens') :
    List.Forall₂ (Token.IsRecount source target lines) tokens tokens' := by
  obtain ⟨type, shown, pieces⟩ := group.pieces
  obtain ⟨type', shown', pieces'⟩ := group'.pieces
  rw [shown, Option.some.injEq] at shown'
  subst shown'
  exact forall₂_of_common pieces pieces' fun _ _ _ piece piece' => piece.isRecount piece'

/-- Whatever the target, the lexemes that are shown become the same tokens but for the units. -/
theorem Lexemes.forall₂_isRecount_of_shown_eq {lexemes others : List Lexeme}
    {result result' : List Token} (same : shown others = shown lexemes)
    (run : tokens lexemes lines source = .ok result)
    (run' : tokens others lines target = .ok result') :
    List.Forall₂ (Token.IsRecount source target lines) result result' := by
  obtain ⟨groups, rfl, each⟩ := exists_groups run
  obtain ⟨groups', rfl, each'⟩ := exists_groups run'
  rw [same] at each'
  exact List.rel_flatten (forall₂_of_common each each' fun _ _ _ group group' =>
    group.forall₂_isRecount group')

theorem Lexemes.forall₂_isRecount {lexemes : List Lexeme} {result result' : List Token}
    (run : tokens lexemes lines source = .ok result)
    (run' : tokens lexemes lines target = .ok result') :
    List.Forall₂ (Token.IsRecount source target lines) result result' :=
  forall₂_isRecount_of_shown_eq rfl run run'

/-! ## The overlay -/

namespace Overlay

variable {primary primary' secondary secondary' : List Token}

theorem forall₂_clear
    (first : List.Forall₂ (Token.IsRecount source target lines) primary primary')
    (second : List.Forall₂ (Token.IsRecount source target lines) secondary secondary') :
    List.Forall₂ (Token.IsRecount source target lines) (clear primary secondary)
      (clear primary' secondary') := by
  refine List.rel_filter ?_ second
  intro token token' recount
  simp only [decide_eq_true_eq]
  exact forall_mem_iff_of_forall₂ first fun _ _ recount' =>
    not_congr (recount'.conflicts_iff recount)

theorem forall₂_arranged
    (first : List.Forall₂ (Token.IsRecount source target lines) primary primary')
    (second : List.Forall₂ (Token.IsRecount source target lines) secondary secondary') :
    List.Forall₂ (Token.IsRecount source target lines) (arranged primary secondary)
      (arranged primary' secondary') :=
  forall₂_mergeSort (List.rel_append (forall₂_clear first second) first)
    fun _ _ _ _ recount recount' => recount.placeLe_eq recount'

end Overlay

/-! ## Spans and markup -/

/-- Spans that look alike: they have the same text and, if styled, the same type and modifiers. -/
inductive Span.Alike : Span → Span → Prop
  | plain (text : Text) : Alike (plain text) (plain text)
  | styled (text : Text) {token token' : Token} : token'.type = token.type →
      token'.modifiers = token.modifiers → Alike (styled text token) (styled text token')

theorem Span.forall₂_alike_plain? (text : Text) :
    List.Forall₂ Alike (plain? text) (plain? text) := by
  rw [List.forall₂_same]
  intro span member
  obtain ⟨-, rfl⟩ := mem_plain?.mp member
  exact .plain text

/-- Where lines are cut along tokens, they are cut at the same places along recounted ones. -/
theorem Span.Cuts.recount {row column : Nat} {before rest : Text} {later : List Text}
    {tokens tokens' : List Token} {spans : List Span}
    (cuts : Cuts source row column rest later tokens spans)
    (standing : Standing source lines row column before rest later)
    (recounts : List.Forall₂ (Token.IsRecount source target lines) tokens tokens') :
    ∃ spans', Cuts target row (target.length before) rest later tokens' spans' ∧
      List.Forall₂ Alike spans spans' := by
  induction cuts generalizing before tokens' with
  | finish =>
      cases recounts
      exact ⟨_, .finish, forall₂_alike_plain? _⟩
  | next _ ih =>
      obtain ⟨spans', below, alike⟩ := ih standing.next recounts
      exact ⟨_, .next below, List.rel_append (forall₂_alike_plain? _) (.cons (.plain _) alike)⟩
  | @token row column gap text rest later token tokens spans here start length _ ih =>
      cases recounts with
      | @cons _ token' _ _ recount recounts =>
          obtain ⟨front, text', after, found, startEq, lengthEq, rfl⟩ :=
            Token.isRecount_iff.mp recount
          -- The stretch that the token measures is the one that is cut out here.
          rw [here, standing.getElem?, Option.some.injEq] at found
          obtain ⟨rfl, behind⟩ := PositionEncoding.append_inj_of_length_eq
            (show (before ++ gap) ++ (text ++ rest) = front ++ (text' ++ after) by
              simpa using found)
            (show source.length (before ++ gap) = source.length front by
              rw [PositionEncoding.length_append, standing.column_eq, ← start, startEq])
          obtain ⟨rfl, -⟩ := PositionEncoding.append_inj_of_length_eq behind
            (length.symm.trans lengthEq)
          obtain ⟨spans', cut, alike⟩ := ih (standing.behind start length) recounts
          rw [PositionEncoding.length_append] at cut
          refine ⟨_, .token here (by simp) rfl cut, ?_⟩
          exact List.rel_append (forall₂_alike_plain? gap) (.cons (.styled text rfl rfl) alike)

theorem Span.ofTokens_recount {tokens tokens' : List Token} {spans : List Span}
    (run : ofTokens tokens lines source = .ok spans)
    (recounts : List.Forall₂ (Token.IsRecount source target lines) tokens tokens') :
    ∃ spans', ofTokens tokens' lines target = .ok spans' ∧ List.Forall₂ Alike spans spans' := by
  have order := (ofTokens_isOk_iff.mp ⟨spans, run⟩).1
  obtain ⟨spans', run'⟩ := ofTokens_isOk_iff.mpr
    ⟨(inOrder_iff_of_isRecount recounts).mp order, fits_of_isRecount recounts⟩
  refine ⟨spans', run', ?_⟩
  have cuts := cutsAll_of_ofTokens run
  have cuts' := cutsAll_of_ofTokens run'
  cases lines with
  | nil =>
      obtain ⟨-, rfl⟩ := cuts
      obtain ⟨-, rfl⟩ := cuts'
      exact .nil
  | cons line later =>
      have standing : Standing source (line :: later) 0 0 [] line later := ⟨rfl, rfl⟩
      obtain ⟨spans'', cut, alike⟩ := Cuts.recount cuts standing recounts
      exact Cuts.unique cut cuts' ▸ alike

theorem Span.map_text_of_alike {spans spans' : List Span}
    (alike : List.Forall₂ Alike spans spans') : spans.map text = spans'.map text := by
  induction alike with
  | nil => rfl
  | cons first _ ih => cases first <;> simp [ih, Span.plain, Span.styled]

theorem Markup.render_of_alike {spans spans' : List Span} (stems : ClassStems)
    (alike : List.Forall₂ Span.Alike spans spans') : render stems spans = render stems spans' := by
  induction alike with
  | nil => rfl
  | cons first _ ih =>
      rw [render, List.flatMap_cons, ← render, ih, render, render, List.flatMap_cons]
      congr 1
      cases first with
      | plain => rfl
      | styled _ type modifiers =>
          simp [renderSpan, Span.styled, ClassStems.classes, type, modifiers]

/-! ## Main result -/

namespace Request

/-- The same request with another stream, counted in units of `encoding`. -/
def counted (request : Request) (encoding : PositionEncoding) (stream : List UInt32) : Request :=
  { request with stream, announced := some encoding }

variable {request : Request} {settings : Settings} {stream stream' : List UInt32}
  {semantic semantic' : List Token}

theorem encoding_counted (unset : settings.encoding = none) (encoding : PositionEncoding) :
    (request.counted encoding stream).encoding settings = encoding := by
  simp [Request.encoding, counted, Settings.resolve, unset]

/-- The lexemes are read in both units or in neither, and then to recounted tokens. -/
theorem lexical_counted (unset : settings.encoding = none) {lexical : List Token}
    (run : (request.counted source stream).lexical settings = .ok lexical) :
    ∃ lexical', (request.counted target stream').lexical settings = .ok lexical' ∧
      List.Forall₂ (Token.IsRecount source target request.lines) lexical lexical' := by
  by_cases ignored : request.IgnoresLexemes
  · have none_read : (request.counted source stream).lexical settings = .ok [] :=
      lexical_of_ignoresLexemes ignored
    rw [none_read, Except.ok.injEq] at run
    exact ⟨[], lexical_of_ignoresLexemes ignored, run ▸ .nil⟩
  · have read : ∀ encoding stream, (request.counted encoding stream).lexical settings =
        Lexemes.tokens request.lexemes request.lines encoding := by
      intro encoding stream
      have used : ¬ (request.counted encoding stream).IgnoresLexemes := ignored
      rw [lexical_of_not_ignoresLexemes used, encoding_counted unset]
      rfl
    rw [read] at run
    obtain ⟨lexical', run'⟩ := (@Lexemes.tokens_isOk_iff target _ _).mpr
      (Lexemes.tokens_isOk_iff.mp ⟨lexical, run⟩)
    exact ⟨lexical', (read target stream').trans run', Lexemes.forall₂_isRecount run run'⟩

theorem spans_counted (unset : settings.encoding = none)
    (decoded : Wire.decode stream request.legend = .ok semantic)
    (decoded' : Wire.decode stream' request.legend = .ok semantic')
    (recounts : List.Forall₂ (Token.IsRecount source target request.lines) semantic semantic')
    {spans : List Span} (run : (request.counted source stream).spans settings = .ok spans) :
    ∃ spans', (request.counted target stream').spans settings = .ok spans' ∧
      List.Forall₂ Span.Alike spans spans' := by
  obtain ⟨semantic₁, lexical, semanticRun, lexicalRun, semanticOrder, lexicalOrder, cut⟩ :=
    spans_eq_ok_iff.mp run
  obtain rfl : semantic = semantic₁ := Except.ok.inj (decoded.symm.trans semanticRun)
  rw [encoding_counted unset] at cut
  obtain ⟨lexical', lexicalRun', lexicalRecounts⟩ :=
    @lexical_counted source target _ _ _ stream' unset _ lexicalRun
  obtain ⟨spans', cut', alike⟩ :=
    Span.ofTokens_recount cut (Overlay.forall₂_arranged recounts lexicalRecounts)
  refine ⟨spans', spans_eq_ok_iff.mpr ⟨semantic', lexical', decoded', lexicalRun',
    (inOrder_iff_of_isRecount recounts).mp semanticOrder,
    (inOrder_iff_of_isRecount lexicalRecounts).mp lexicalOrder, ?_⟩, alike⟩
  rw [encoding_counted unset]
  exact cut'

/-- Markup does not depend on the units in which the stream is counted: of two streams whose tokens
are recounts of each other, both or neither have markup, and it is the same one. The same goes for
the texts of the spans. -/
theorem markup_counted (unset : settings.encoding = none)
    (decoded : Wire.decode stream request.legend = .ok semantic)
    (decoded' : Wire.decode stream' request.legend = .ok semantic')
    (recounts : List.Forall₂ (Token.IsRecount source target request.lines) semantic semantic') :
    (∀ markup, (request.counted source stream).markup settings = .ok markup ↔
      (request.counted target stream').markup settings = .ok markup) ∧
    ∀ texts, List.map Span.text <$> (request.counted source stream).spans settings = .ok texts ↔
      List.map Span.text <$> (request.counted target stream').spans settings = .ok texts := by
  have back : List.Forall₂ (Token.IsRecount target source request.lines) semantic' semantic :=
    (recounts.imp fun _ _ recount => recount.symm).flip
  have same : ∀ {β : Type} {f : List Span → β},
      (∀ {spans spans' : List Span}, List.Forall₂ Span.Alike spans spans' → f spans = f spans') →
      ∀ result, f <$> (request.counted source stream).spans settings = .ok result ↔
        f <$> (request.counted target stream').spans settings = .ok result := by
    intro β f alikeSame result
    rw [map_eq_ok_iff, map_eq_ok_iff]
    constructor
    · rintro ⟨spans, run, rfl⟩
      obtain ⟨spans', run', alike⟩ := spans_counted unset decoded decoded' recounts run
      exact ⟨spans', run', (alikeSame alike).symm⟩
    · rintro ⟨spans', run', rfl⟩
      obtain ⟨spans, run, alike⟩ := spans_counted unset decoded' decoded back run'
      exact ⟨spans, run, (alikeSame alike).symm⟩
  exact ⟨same (Markup.render_of_alike settings.stems), same Span.map_text_of_alike⟩

/-- Two units of UTF-16 are four bytes, and the lexeme on them gives way in both counts. -/
theorem markup_counted_surrogates :
    (counted
      { text := "é😀 b".toList, stream := [], legend := ⟨["string"], ["static"]⟩,
        lexemes := [⟨.operator, ⟨1, 1⟩, ⟨1, 3⟩⟩, ⟨.comment, ⟨1, 3⟩, ⟨1, 8⟩⟩,
          ⟨.keyword, ⟨1, 8⟩, ⟨1, 9⟩⟩] } .utf8 [0, 2, 4, 0, 1]).markup {} =
      .ok ("<span class=\"lsp-type-operator\">é</span>".toList ++
        "<span class=\"lsp-type-string lsp-modifier-static\">😀</span> ".toList ++
        "<span class=\"lsp-type-keyword\">b</span>".toList) := by
  have decoded : Wire.decode [0, 1, 2, 0, 1] ⟨["string"], ["static"]⟩ =
      .ok [⟨0, 1, 2, "string", ⟨["static"]⟩⟩] := by decide +kernel
  have decoded' : Wire.decode [0, 2, 4, 0, 1] ⟨["string"], ["static"]⟩ =
      .ok [⟨0, 2, 4, "string", ⟨["static"]⟩⟩] := by decide +kernel
  have recounts : List.Forall₂ (Token.IsRecount .utf16 .utf8 ["é😀 b".toList])
      [⟨0, 1, 2, "string", ⟨["static"]⟩⟩] [⟨0, 2, 4, "string", ⟨["static"]⟩⟩] :=
    .cons ⟨⟨_, rfl, by decide +kernel, by decide +kernel⟩, rfl, rfl, rfl⟩ .nil
  refine ((markup_counted rfl decoded decoded' recounts).1 _).mp ?_
  decide +kernel

end Request

end TokenMarkup
