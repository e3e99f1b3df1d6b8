import TokenMarkup.Lexeme.Pieces
import TokenMarkup.Proofs.SpanCut
import TokenMarkup.Proofs.Steps

/-!
# What becomes of lexemes

A lexeme is sound if it counts from one, is not inverted, and starts and stops at characters of the
text. Sound lexemes become tokens that fit the lines in every target encoding; anything else is
refused by a fault that does not depend on the target (`Lexemes.tokensFrom_spec`). The tokens are in
order if and only if each lexeme starts where the one in front of it stops or behind
(`Lexemes.inOrder_iff`): bytes and units of the target order the boundaries of a line alike.
-/

namespace TokenMarkup

open PositionEncoding (utf8)

namespace Location

/-- Whether `a` stands at `b` or before it. -/
def AtOrBefore (a b : Location) : Prop :=
  a.line < b.line ∨ a.line = b.line ∧ a.column ≤ b.column

theorem atOrBefore_iff {a b : Location} : a.AtOrBefore b ↔ ¬ b.precedes a := by
  simp only [AtOrBefore, precedes, Bool.or_eq_true, Bool.and_eq_true, decide_eq_true_eq, beq_iff_eq]
  omega

/-- Whether a location is in front of, between or behind the characters of an existing line. -/
def IsOn (lines : List Text) (location : Location) : Prop :=
  ∃ line, lines[location.line - 1]? = some line ∧ utf8.IsBoundary line (location.column - 1)

/-- Whether a location is, in units of the target, the place `column` of its line. -/
def LiesAt (target : PositionEncoding) (lines : List Text) (location : Location)
    (column : Nat) : Prop :=
  ∃ before after, lines[location.line - 1]? = some (before ++ after) ∧
    utf8.length before = location.column - 1 ∧ target.length before = column

theorem LiesAt.isOn {target : PositionEncoding} {lines : List Text} {location : Location}
    {column : Nat} (lies : location.LiesAt target lines column) : location.IsOn lines := by
  obtain ⟨before, after, found, bytes, -⟩ := lies
  exact ⟨before ++ after, found, before, after, rfl, bytes⟩

/-- Units of the target order the locations of a line as bytes do. -/
theorem LiesAt.le_iff {target : PositionEncoding} {lines : List Text} {a b : Location}
    {column column' : Nat} (lies : a.LiesAt target lines column)
    (lies' : b.LiesAt target lines column') (sameLine : a.line = b.line) :
    column ≤ column' ↔ a.column - 1 ≤ b.column - 1 := by
  obtain ⟨before, after, found, bytes, rfl⟩ := lies
  obtain ⟨before', after', found', bytes', rfl⟩ := lies'
  rw [← sameLine, found, Option.some.injEq] at found'
  rw [← bytes, ← bytes', PositionEncoding.length_le_length_iff utf8 target found']

end Location

namespace Lexeme

/-- Whether the lexeme is of a kind that is shown. -/
def isShown (lexeme : Lexeme) : Bool := lexeme.kind.tokenType?.isSome

/-- Whether the lexeme covers a stretch of the text. -/
structure IsSound (lines : List Text) (lexeme : Lexeme) : Prop where
  oneBased : lexeme.start.isOneBased ∧ lexeme.stop.isOneBased
  notInverted : lexeme.start.AtOrBefore lexeme.stop
  start : lexeme.start.IsOn lines
  stop : lexeme.stop.IsOn lines

theorem hasValidRange_iff {lexeme : Lexeme} :
    lexeme.hasValidRange ↔ (lexeme.start.isOneBased ∧ lexeme.stop.isOneBased) ∧
      lexeme.start.AtOrBefore lexeme.stop := by
  rw [Location.atOrBefore_iff]
  simp [hasValidRange]

theorem bounds_of_hasValidRange {lexeme : Lexeme} (valid : lexeme.hasValidRange) :
    1 ≤ lexeme.start.line ∧ 1 ≤ lexeme.start.column ∧ 1 ≤ lexeme.stop.line ∧
      1 ≤ lexeme.stop.column ∧ lexeme.start.line ≤ lexeme.stop.line := by
  obtain ⟨⟨start, stop⟩, order⟩ := hasValidRange_iff.mp valid
  simp only [Location.isOneBased, Bool.and_eq_true, decide_eq_true_eq] at start stop
  rw [Location.AtOrBefore] at order
  omega

/-! ## One line -/

/-- The token for the part of a lexeme on the line `row`. -/
def IsPiece (target : PositionEncoding) (lines : List Text) (lexeme : Lexeme) (type : String)
    (row : Nat) (token : Token) : Prop :=
  ∃ before text after, lines[row]? = some (before ++ text ++ after) ∧
    lexeme.columns row (before ++ text ++ after) =
      (utf8.length before, utf8.length (before ++ text)) ∧
    token = { line := row, start := target.length before, length := target.length text, type }

/-- What is wrong with a lexeme on the line `row`. -/
inductive Misfit (lines : List Text) (lexeme : Lexeme) (row : Nat) : Fault → Prop
  | line : lines.length ≤ row → Misfit lines lexeme row (.lineOutOfRange row lines.length)
  | start {line : Text} : lines[row]? = some line →
      ¬ utf8.IsBoundary line (lexeme.columns row line).1 →
      Misfit lines lexeme row
        (.encodingBoundary (some row) (lexeme.columns row line).1 .utf8 (utf8.length line))
  | stop {line : Text} : lines[row]? = some line →
      utf8.IsBoundary line (lexeme.columns row line).1 →
      ¬ utf8.IsBoundary line (lexeme.columns row line).2 →
      Misfit lines lexeme row
        (.encodingBoundary (some row) (lexeme.columns row line).2 .utf8 (utf8.length line))

theorem columns_le {lexeme : Lexeme} (valid : lexeme.hasValidRange) {row : Nat} {line : Text}
    (starts : utf8.IsBoundary line (lexeme.columns row line).1) :
    (lexeme.columns row line).1 ≤ (lexeme.columns row line).2 := by
  obtain ⟨-, order⟩ := hasValidRange_iff.mp valid
  obtain ⟨before, after, same, measured⟩ := starts
  have inside : (lexeme.columns row line).1 ≤ utf8.length line := by
    rw [← measured, same, PositionEncoding.length_append]
    omega
  clear measured
  rw [Location.AtOrBefore] at order
  simp only [columns] at inside ⊢
  split
  · split
    · omega
    · simpa [*] using inside
  · exact Nat.zero_le _

theorem piece_eq_ok {lexeme : Lexeme} {lines : List Text} {row : Nat} {before text after : Text}
    (found : lines[row]? = some (before ++ text ++ after))
    (covered : lexeme.columns row (before ++ text ++ after) =
      (utf8.length before, utf8.length (before ++ text)))
    (target : PositionEncoding) (position : Nat) (type : String) :
    lexeme.piece target lines position type row = .ok
      { line := row, start := target.length before, length := target.length text, type } := by
  have startAt : PositionEncoding.convert (before ++ text ++ after) (utf8.length before)
      .utf8 target = .ok (target.length before) :=
    PositionEncoding.convert_eq_ok_iff.mpr ⟨before, text ++ after, by simp, rfl, rfl⟩
  have stopAt : PositionEncoding.convert (before ++ text ++ after) (utf8.length (before ++ text))
      .utf8 target = .ok (target.length (before ++ text)) :=
    PositionEncoding.convert_eq_ok_iff.mpr ⟨before ++ text, after, rfl, rfl, rfl⟩
  have ordered : ¬ target.length (before ++ text) < target.length before := by simp
  have measured : target.length (before ++ text) - target.length before = target.length text := by
    simp
  simp only [piece, found, covered, startAt, stopAt, locate, Except.mapError, bind, Except.bind,
    if_neg ordered, measured]
  rfl

/-- A lexeme with a valid range has a piece on a line, or there is something wrong with it there.
The test for an inverted piece never fires. -/
theorem piece_spec {lexeme : Lexeme} (valid : lexeme.hasValidRange) (target : PositionEncoding)
    (lines : List Text) (position : Nat) (type : String) (row : Nat) :
    (∃ token, lexeme.piece target lines position type row = .ok token ∧
      lexeme.IsPiece target lines type row token) ∨
    ∃ fault, lexeme.piece target lines position type row = .error fault ∧
      lexeme.Misfit lines row fault := by
  cases found : lines[row]? with
  | none =>
      rw [piece, found]
      exact .inr ⟨_, rfl, .line (List.getElem?_eq_none_iff.mp found)⟩
  | some line =>
      by_cases starts : utf8.IsBoundary line (lexeme.columns row line).1
      · have order := columns_le valid starts
        by_cases stops : utf8.IsBoundary line (lexeme.columns row line).2
        · obtain ⟨before, rest, rfl, startEq⟩ := starts
          obtain ⟨front, after, same, stopEq⟩ := stops
          obtain ⟨text, rfl, rfl⟩ := PositionEncoding.exists_append_of_length_le same
            (show utf8.length before ≤ utf8.length front by omega)
          rw [same] at found startEq stopEq
          have covered : lexeme.columns row (before ++ text ++ after) =
              (utf8.length before, utf8.length (before ++ text)) :=
            Prod.ext startEq.symm stopEq.symm
          exact .inl ⟨_, piece_eq_ok found covered target position type,
            before, text, after, found, covered, rfl⟩
        · refine .inr ⟨_, ?_, .stop found starts stops⟩
          obtain ⟨before, rest, same, startEq⟩ := starts
          have startAt : PositionEncoding.convert line (lexeme.columns row line).1 .utf8 target =
              .ok (target.length before) :=
            PositionEncoding.convert_eq_ok_iff.mpr ⟨before, rest, same, startEq, rfl⟩
          simp only [piece, found, startAt, PositionEncoding.convert_eq_error stops]
          rfl
      · refine .inr ⟨_, ?_, .start found starts⟩
        simp only [piece, found, PositionEncoding.convert_eq_error starts]
        rfl

namespace IsPiece

variable {target : PositionEncoding} {lines : List Text} {lexeme : Lexeme} {type : String}
  {row : Nat} {token : Token}

theorem line_eq (piece : lexeme.IsPiece target lines type row token) : token.line = row := by
  obtain ⟨before, text, after, -, -, rfl⟩ := piece
  rfl

theorem fits (piece : lexeme.IsPiece target lines type row token) : token.Fits target lines := by
  obtain ⟨before, text, after, found, -, rfl⟩ := piece
  exact ⟨_, found, ⟨before, text ++ after, by simp, rfl⟩,
    before ++ text, after, rfl, by simp [Token.stop]⟩

theorem not_misfit (piece : lexeme.IsPiece target lines type row token) (fault : Fault) :
    ¬ lexeme.Misfit lines row fault := by
  obtain ⟨before, text, after, found, covered, -⟩ := piece
  intro misfit
  cases misfit with
  | line missing =>
      rw [List.getElem?_eq_none missing] at found
      cases found
  | start found' wrong =>
      rw [found', Option.some.injEq] at found
      rw [found, covered] at wrong
      exact wrong ⟨before, text ++ after, by simp, rfl⟩
  | stop found' _ wrong =>
      rw [found', Option.some.injEq] at found
      rw [found, covered] at wrong
      exact wrong ⟨before ++ text, after, rfl, rfl⟩

theorem start_liesAt (valid : lexeme.hasValidRange)
    (piece : lexeme.IsPiece target lines type (lexeme.start.line - 1) token) :
    lexeme.start.LiesAt target lines token.start := by
  obtain ⟨before, text, after, found, covered, rfl⟩ := piece
  have firstLine : lexeme.start.line - 1 + 1 = lexeme.start.line :=
    Nat.sub_add_cancel (bounds_of_hasValidRange valid).1
  have column := congrArg Prod.fst covered
  simp only [columns, if_pos firstLine] at column
  exact ⟨before, text ++ after, by simpa using found, column.symm, rfl⟩

theorem stop_liesAt (valid : lexeme.hasValidRange)
    (piece : lexeme.IsPiece target lines type (lexeme.stop.line - 1) token) :
    lexeme.stop.LiesAt target lines token.stop := by
  obtain ⟨before, text, after, found, covered, rfl⟩ := piece
  have lastLine : lexeme.stop.line - 1 + 1 = lexeme.stop.line :=
    Nat.sub_add_cancel (bounds_of_hasValidRange valid).2.2.1
  have column := congrArg Prod.snd covered
  simp only [columns, if_pos lastLine] at column
  exact ⟨before ++ text, after, found, column.symm, by simp [Token.stop]⟩

theorem map_line_eq {rows : List Nat} {tokens : List Token}
    (pieces : List.Forall₂ (lexeme.IsPiece target lines type) rows tokens) :
    tokens.map Token.line = rows := by
  induction pieces with
  | nil => rfl
  | cons piece _ ih => rw [List.map_cons, piece.line_eq, ih]

theorem forall_fits {rows : List Nat} {tokens : List Token}
    (pieces : List.Forall₂ (lexeme.IsPiece target lines type) rows tokens) :
    ∀ token ∈ tokens, token.Fits target lines := by
  induction pieces with
  | nil => simp
  | cons piece _ ih => exact List.forall_mem_cons.mpr ⟨piece.fits, ih⟩

end IsPiece

/-- Where a lexeme does not start on a line, it covers the line from its beginning. -/
theorem isBoundary_columns_fst {lexeme : Lexeme} {row : Nat} {line : Text} :
    utf8.IsBoundary line (lexeme.columns row line).1 ↔
      (row + 1 = lexeme.start.line → utf8.IsBoundary line (lexeme.start.column - 1)) := by
  simp only [columns]
  split
  · next here => simp [here]
  · next inside => simp [inside, PositionEncoding.isBoundary_zero]

/-- Where a lexeme does not stop on a line, it covers the line up to its end. -/
theorem isBoundary_columns_snd {lexeme : Lexeme} {row : Nat} {line : Text} :
    utf8.IsBoundary line (lexeme.columns row line).2 ↔
      (row + 1 = lexeme.stop.line → utf8.IsBoundary line (lexeme.stop.column - 1)) := by
  simp only [columns]
  split
  · next here => simp [here]
  · next inside => simp [inside, PositionEncoding.isBoundary_length]

/-- Nothing is wrong with a sound lexeme on any of its lines. -/
theorem IsSound.not_misfit {lines : List Text} {lexeme : Lexeme} (sound : lexeme.IsSound lines)
    {row : Nat} (inside : row < lexeme.stop.line) {fault : Fault} :
    ¬ lexeme.Misfit lines row fault := by
  obtain ⟨first, firstFound, firstBoundary⟩ := sound.start
  obtain ⟨last, lastFound, lastBoundary⟩ := sound.stop
  intro misfit
  cases misfit with
  | line missing =>
      have := (List.getElem?_eq_some_iff.mp lastFound).1
      omega
  | start found wrong =>
      refine wrong (isBoundary_columns_fst.mpr fun here => ?_)
      rw [← here, Nat.add_sub_cancel, found, Option.some.injEq] at firstFound
      exact firstFound ▸ firstBoundary
  | stop found _ wrong =>
      refine wrong (isBoundary_columns_snd.mpr fun here => ?_)
      rw [← here, Nat.add_sub_cancel, found, Option.some.injEq] at lastFound
      exact lastFound ▸ lastBoundary

/-! ## All lines -/

/-- A lexeme with a valid range has its pieces on `count` lines, or there is something wrong with it
on the first line where it has none. -/
theorem piecesFrom_spec {lexeme : Lexeme} (valid : lexeme.hasValidRange)
    (target : PositionEncoding) (lines : List Text) (position : Nat) (type : String)
    (row count : Nat) :
    (∃ tokens, lexeme.piecesFrom target lines position type row count = .ok tokens ∧
      List.Forall₂ (lexeme.IsPiece target lines type) (List.range' row count) tokens) ∨
    ∃ fault bad, lexeme.piecesFrom target lines position type row count = .error fault ∧
      row ≤ bad ∧ bad < row + count ∧ lexeme.Misfit lines bad fault ∧
      ∀ earlier, row ≤ earlier → earlier < bad →
        ∀ other, ¬ lexeme.Misfit lines earlier other := by
  -- Down the lines: what is wrong further down is wrong first if this line has its piece.
  induction count generalizing row with
  | zero => exact .inl ⟨[], rfl, .nil⟩
  | succ count ih =>
      rw [piecesFrom]
      rcases piece_spec valid target lines position type row with
        ⟨token, done, piece⟩ | ⟨fault, failed, misfit⟩
      · rcases ih (row + 1) with
          ⟨tokens, rest, pieces⟩ | ⟨fault, bad, rest, above, below, misfit, good⟩
        · refine .inl ⟨token :: tokens, ?_, .cons piece pieces⟩
          exact bind_eq_ok_iff.mpr ⟨token, done, bind_eq_ok_iff.mpr ⟨tokens, rest, rfl⟩⟩
        · refine .inr ⟨fault, bad, ?_, by omega, by omega, misfit, ?_⟩
          · exact bind_eq_error_iff.mpr (.inr ⟨token, done, bind_eq_error_iff.mpr (.inl rest)⟩)
          · intro earlier atLeast less
            rcases Nat.eq_or_lt_of_le atLeast with rfl | later
            · exact piece.not_misfit
            · exact good earlier later less
      · exact .inr ⟨fault, row, bind_eq_error_iff.mpr (.inl failed), by omega, by omega, misfit,
          fun earlier _ _ => by omega⟩

/-- The tokens of a lexeme that is shown: one for each line from its start to its stop. -/
structure IsGroup (target : PositionEncoding) (lines : List Text) (lexeme : Lexeme)
    (group : List Token) : Prop where
  valid : lexeme.hasValidRange
  pieces : ∃ type, lexeme.kind.tokenType? = some type ∧
    List.Forall₂ (lexeme.IsPiece target lines type)
      (List.range' (lexeme.start.line - 1) (lexeme.stop.line + 1 - lexeme.start.line)) group

namespace IsGroup

variable {target : PositionEncoding} {lines : List Text} {lexeme : Lexeme} {tokens : List Token}

theorem head? (group : lexeme.IsGroup target lines tokens) :
    ∃ first, tokens.head? = some first ∧ first.line = lexeme.start.line - 1 ∧
      lexeme.start.LiesAt target lines first.start := by
  have bounds := bounds_of_hasValidRange group.valid
  obtain ⟨type, -, pieces⟩ := group.pieces
  obtain ⟨more, count⟩ : ∃ more, lexeme.stop.line + 1 - lexeme.start.line = more + 1 :=
    ⟨lexeme.stop.line - lexeme.start.line, by omega⟩
  rw [count, List.range'_succ, List.forall₂_cons_left_iff] at pieces
  obtain ⟨first, rest, piece, -, rfl⟩ := pieces
  exact ⟨first, rfl, piece.line_eq, piece.start_liesAt group.valid⟩

theorem getLast? (group : lexeme.IsGroup target lines tokens) :
    ∃ last, tokens.getLast? = some last ∧ last.line = lexeme.stop.line - 1 ∧
      lexeme.stop.LiesAt target lines last.stop := by
  have bounds := bounds_of_hasValidRange group.valid
  obtain ⟨type, -, pieces⟩ := group.pieces
  obtain ⟨more, count, lastRow⟩ : ∃ more, lexeme.stop.line + 1 - lexeme.start.line = more + 1 ∧
      lexeme.start.line - 1 + more = lexeme.stop.line - 1 :=
    ⟨lexeme.stop.line - lexeme.start.line, by omega, by omega⟩
  rw [count, List.range'_1_concat, lastRow, ← List.forall₂_reverse_iff, List.reverse_concat,
    List.forall₂_cons_left_iff] at pieces
  obtain ⟨last, front, piece, -, reversed⟩ := pieces
  refine ⟨last, ?_, piece.line_eq, piece.stop_liesAt group.valid⟩
  rw [List.getLast?_eq_head?_reverse, reversed, List.head?_cons]

theorem isSound (group : lexeme.IsGroup target lines tokens) : lexeme.IsSound lines := by
  obtain ⟨oneBased, order⟩ := hasValidRange_iff.mp group.valid
  obtain ⟨first, -, -, start⟩ := group.head?
  obtain ⟨last, -, -, stop⟩ := group.getLast?
  exact ⟨oneBased, order, start.isOn, stop.isOn⟩

theorem fits (group : lexeme.IsGroup target lines tokens) :
    ∀ token ∈ tokens, token.Fits target lines := by
  obtain ⟨type, -, pieces⟩ := group.pieces
  exact IsPiece.forall_fits pieces

theorem inOrder (group : lexeme.IsGroup target lines tokens) : InOrder tokens := by
  obtain ⟨type, -, pieces⟩ := group.pieces
  have increasing : (tokens.map Token.line).Pairwise (· < ·) :=
    IsPiece.map_line_eq pieces ▸ List.pairwise_lt_range'
  rw [inOrder_iff_pairwise]
  exact (List.pairwise_map.mp increasing).imp .inl

/-- One lexeme's tokens end before another's start if and only if the lexemes do so. -/
theorem endsBefore_iff {lexeme' : Lexeme} {tokens' : List Token}
    (group : lexeme.IsGroup target lines tokens) (group' : lexeme'.IsGroup target lines tokens') :
    (∀ last ∈ tokens.getLast?, ∀ first ∈ tokens'.head?, last.EndsBefore first) ↔
      lexeme.stop.AtOrBefore lexeme'.start := by
  obtain ⟨last, lastEq, lastLine, stop⟩ := group.getLast?
  obtain ⟨first, firstEq, firstLine, start⟩ := group'.head?
  have bounds := bounds_of_hasValidRange group.valid
  have bounds' := bounds_of_hasValidRange group'.valid
  simp only [lastEq, firstEq, Option.mem_some_iff, forall_eq', Token.EndsBefore,
    Location.AtOrBefore, lastLine, firstLine]
  by_cases sameLine : lexeme.stop.line = lexeme'.start.line
  · -- Only on one line do columns matter, and there units of the target order them as bytes do.
    have columns := stop.le_iff start sameLine
    omega
  · omega

end IsGroup

/-- What is wrong with a lexeme, number `position` of its list: its range, or the first of its lines
where there is something wrong. -/
inductive Fails (lines : List Text) (position : Nat) (lexeme : Lexeme) : Fault → Prop
  | range : lexeme.isShown → ¬ lexeme.hasValidRange →
      Fails lines position lexeme (lexeme.rangeFault position)
  | row {row : Nat} {fault : Fault} : lexeme.isShown → lexeme.hasValidRange →
      lexeme.start.line - 1 ≤ row → row < lexeme.stop.line → lexeme.Misfit lines row fault →
      (∀ earlier, lexeme.start.line - 1 ≤ earlier → earlier < row →
        ∀ other, ¬ lexeme.Misfit lines earlier other) →
      Fails lines position lexeme fault

theorem Fails.isShown {lines : List Text} {position : Nat} {lexeme : Lexeme} {fault : Fault}
    (fails : lexeme.Fails lines position fault) : lexeme.isShown := by
  cases fails <;> assumption

theorem Fails.not_isSound {lines : List Text} {position : Nat} {lexeme : Lexeme} {fault : Fault}
    (fails : lexeme.Fails lines position fault) : ¬ lexeme.IsSound lines := by
  intro sound
  cases fails with
  | range _ invalid => exact invalid (hasValidRange_iff.mpr ⟨sound.oneBased, sound.notInverted⟩)
  | row _ _ _ below misfit _ => exact sound.not_misfit below misfit

/-- A lexeme that is not shown has no tokens, and any other one has its group or fails. -/
theorem pieces_spec (target : PositionEncoding) (lines : List Text) (position : Nat)
    (lexeme : Lexeme) :
    (∃ tokens, lexeme.pieces target lines position = .ok tokens ∧
      (lexeme.isShown → lexeme.IsGroup target lines tokens) ∧
      (¬ lexeme.isShown → tokens = [])) ∨
    ∃ fault, lexeme.pieces target lines position = .error fault ∧
      lexeme.Fails lines position fault := by
  rw [pieces]
  cases found : lexeme.kind.tokenType? with
  | none =>
      have hidden : ¬ lexeme.isShown := by simp [isShown, found]
      exact .inl ⟨[], rfl, fun shown => absurd shown hidden, fun _ => rfl⟩
  | some type =>
      have shown : lexeme.isShown := by simp [isShown, found]
      by_cases valid : lexeme.hasValidRange
      · have bounds := bounds_of_hasValidRange valid
        simp only [if_pos valid]
        rcases piecesFrom_spec valid target lines position type (lexeme.start.line - 1)
          (lexeme.stop.line + 1 - lexeme.start.line) with
          ⟨group, done, pieces⟩ | ⟨fault, bad, failed, above, below, misfit, good⟩
        · exact .inl ⟨group, done, fun _ => ⟨valid, type, found, pieces⟩,
            fun hidden => absurd shown hidden⟩
        · exact .inr ⟨fault, failed, .row shown valid above (by omega) misfit good⟩
      · simp only [if_neg valid]
        exact .inr ⟨_, rfl, .range shown valid⟩

end Lexeme

/-! ## All lexemes -/

namespace Lexemes

/-- The lexemes of which anything is to be seen, those of a known kind. -/
def shown (lexemes : List Lexeme) : List Lexeme := lexemes.filter Lexeme.isShown

/-- Each lexeme that is shown has its group of tokens, or the first that has none is at fault. -/
theorem tokensFrom_spec (target : PositionEncoding) (lines : List Text) (position : Nat)
    (lexemes : List Lexeme) :
    (∃ groups, tokensFrom target lines position lexemes = .ok groups.flatten ∧
      List.Forall₂ (Lexeme.IsGroup target lines) (shown lexemes) groups) ∨
    ∃ fault before lexeme after, tokensFrom target lines position lexemes = .error fault ∧
      lexemes = before ++ lexeme :: after ∧
      lexeme.Fails lines (position + before.length) fault ∧
      ∀ earlier ∈ shown before, earlier.IsSound lines := by
  -- Along the list: a lexeme that is not shown counts for the positions, but has no group.
  induction lexemes generalizing position with
  | nil => exact .inl ⟨[], rfl, .nil⟩
  | cons lexeme rest ih =>
      rcases lexeme.pieces_spec target lines position with
        ⟨tokens, done, grouped, hidden⟩ | ⟨fault, failed, fails⟩
      · rcases ih (position + 1) with
          ⟨groups, tail, each⟩ | ⟨fault, before, bad, after, tail, rfl, fails, sound⟩
        · have joined : tokensFrom target lines position (lexeme :: rest) =
              .ok (tokens ++ groups.flatten) :=
            bind_eq_ok_iff.mpr ⟨tokens, done, bind_eq_ok_iff.mpr ⟨_, tail, rfl⟩⟩
          left
          by_cases isShown : lexeme.isShown
          · rw [shown, List.filter_cons_of_pos isShown, ← shown]
            exact ⟨tokens :: groups, joined, .cons (grouped isShown) each⟩
          · rw [shown, List.filter_cons_of_neg isShown, ← shown]
            rw [hidden isShown] at joined
            exact ⟨groups, joined, each⟩
        · refine .inr ⟨fault, lexeme :: before, bad, after, ?_, rfl, ?_, ?_⟩
          · exact bind_eq_error_iff.mpr (.inr ⟨tokens, done, bind_eq_error_iff.mpr (.inl tail)⟩)
          · rwa [List.length_cons, Nat.add_comm before.length, ← Nat.add_assoc]
          · intro earlier member
            obtain ⟨inFront, isShown⟩ := List.mem_filter.mp member
            rcases List.mem_cons.mp inFront with rfl | inBefore
            · exact (grouped isShown).isSound
            · exact sound earlier (List.mem_filter.mpr ⟨inBefore, isShown⟩)
      · exact .inr ⟨fault, [], lexeme, rest, bind_eq_error_iff.mpr (.inl failed), rfl, fails,
          by simp [shown]⟩

section Groups

variable {target : PositionEncoding} {lines : List Text} {lexemes : List Lexeme}
  {groups : List (List Token)}

theorem isSound_of_groups (each : List.Forall₂ (Lexeme.IsGroup target lines) lexemes groups) :
    ∀ lexeme ∈ lexemes, lexeme.IsSound lines := by
  induction each with
  | nil => simp
  | cons group _ ih => exact List.forall_mem_cons.mpr ⟨group.isSound, ih⟩

theorem exists_lexeme_of_group
    (each : List.Forall₂ (Lexeme.IsGroup target lines) lexemes groups) :
    ∀ tokens ∈ groups, ∃ lexeme, Lexeme.IsGroup target lines lexeme tokens := by
  induction each with
  | nil => simp
  | cons group _ ih => exact List.forall_mem_cons.mpr ⟨⟨_, group⟩, ih⟩

theorem isChain_groups_iff (each : List.Forall₂ (Lexeme.IsGroup target lines) lexemes groups) :
    (groups.IsChain fun tokens tokens' =>
      ∀ last ∈ tokens.getLast?, ∀ first ∈ tokens'.head?, last.EndsBefore first) ↔
      lexemes.IsChain fun a b => a.stop.AtOrBefore b.start := by
  induction each with
  | nil => simp
  | cons group rest ih =>
      cases rest with
      | nil => simp
      | cons group' rest =>
          rw [List.isChain_cons_cons, List.isChain_cons_cons, group.endsBefore_iff group', ih]

theorem inOrder_flatten_iff (each : List.Forall₂ (Lexeme.IsGroup target lines) lexemes groups) :
    InOrder groups.flatten ↔ lexemes.IsChain fun a b => a.stop.AtOrBefore b.start := by
  have nonempty : [] ∉ groups := by
    intro member
    obtain ⟨lexeme, group⟩ := exists_lexeme_of_group each [] member
    obtain ⟨first, found, -⟩ := group.head?
    cases found
  have inside : ∀ tokens ∈ groups, InOrder tokens := by
    intro tokens member
    obtain ⟨lexeme, group⟩ := exists_lexeme_of_group each tokens member
    exact group.inOrder
  rw [InOrder, List.isChain_flatten nonempty, ← isChain_groups_iff each]
  exact and_iff_right inside

end Groups

section Tokens

variable {target : PositionEncoding} {lines : List Text} {lexemes : List Lexeme}
  {result : List Token}

/-- Lexemes become tokens if and only if all that are shown are sound. -/
theorem tokens_isOk_iff :
    (∃ result, tokens lexemes lines target = .ok result) ↔
      ∀ lexeme ∈ shown lexemes, lexeme.IsSound lines := by
  rcases tokensFrom_spec target lines 0 lexemes with
    ⟨groups, done, each⟩ | ⟨fault, before, bad, after, failed, rfl, fails, -⟩
  · exact iff_of_true ⟨_, done⟩ (isSound_of_groups each)
  · refine iff_of_false ?_ ?_
    · rintro ⟨result, done⟩
      rw [tokens, failed] at done
      cases done
    · intro sound
      exact fails.not_isSound (sound bad (List.mem_filter.mpr ⟨by simp, fails.isShown⟩))

theorem exists_groups (run : tokens lexemes lines target = .ok result) :
    ∃ groups, result = groups.flatten ∧
      List.Forall₂ (Lexeme.IsGroup target lines) (shown lexemes) groups := by
  rcases tokensFrom_spec target lines 0 lexemes with
    ⟨groups, done, each⟩ | ⟨fault, before, bad, after, failed, -⟩
  · rw [tokens, done, Except.ok.injEq] at run
    exact ⟨groups, run.symm, each⟩
  · rw [tokens, failed] at run
    cases run

/-- Lexemes that do not become tokens fail at the first that is shown and not sound. -/
theorem tokens_eq_error {fault : Fault} (failed : tokens lexemes lines target = .error fault) :
    ∃ before lexeme after, lexemes = before ++ lexeme :: after ∧
      lexeme.Fails lines before.length fault ∧
      ∀ earlier ∈ shown before, earlier.IsSound lines := by
  rcases tokensFrom_spec target lines 0 lexemes with
    ⟨groups, done, -⟩ | ⟨fault', before, bad, after, failed', same, fails, sound⟩
  · rw [tokens, done] at failed
    cases failed
  · rw [tokens, failed', Except.error.injEq] at failed
    rw [Nat.zero_add, failed] at fails
    exact ⟨before, bad, after, same, fails, sound⟩

/-- Whatever the target, the tokens of lexemes fit. -/
theorem fits_of_tokens (run : tokens lexemes lines target = .ok result) :
    ∀ token ∈ result, token.Fits target lines := by
  obtain ⟨groups, rfl, each⟩ := exists_groups run
  intro token member
  obtain ⟨tokens, inGroups, inTokens⟩ := List.mem_flatten.mp member
  obtain ⟨lexeme, group⟩ := exists_lexeme_of_group each tokens inGroups
  exact group.fits token inTokens

/-- The tokens of lexemes are in order if and only if each lexeme that is shown starts where the one
in front of it stops, or behind. -/
theorem inOrder_iff (run : tokens lexemes lines target = .ok result) :
    InOrder result ↔ (shown lexemes).IsChain fun a b => a.stop.AtOrBefore b.start := by
  obtain ⟨groups, rfl, each⟩ := exists_groups run
  exact inOrder_flatten_iff each

end Tokens

end Lexemes

end TokenMarkup
