import TokenMarkup.Proofs.Fidelity
import TokenMarkup.Proofs.LexemePieces

/-!
# Pieces cover the text of their lexeme

A compiler says where a lexeme starts and stops in lines and byte columns, and so in bytes of the
text (`Location.offset`). The pieces of a lexeme are counted line by line in units of the target,
but what they cover, joined by newlines, is the stretch of the text between these two byte offsets
(`Lexeme.IsCover`). The argument follows the lines down: `Text.upTo` is the text up to a place of a
line, each piece goes on where the one above it ended (`Lexeme.exists_parts`), and the line above
the last is always covered up to its newline.
-/

namespace TokenMarkup

open PositionEncoding (utf8)

/-! ## Bytes in front of a location -/

namespace Text

/-- The text up to a place on the line `row`: the lines above, each with its newline, and then
`before` of the line itself. -/
def upTo (lines : List Text) (row : Nat) (before : Text) : Text :=
  (lines.take row).flatMap (· ++ ['\n']) ++ before

theorem upTo_append (lines : List Text) (row : Nat) (before text : Text) :
    upTo lines row (before ++ text) = upTo lines row before ++ text := by
  simp [upTo]

/-- Behind a line and its newline the next line starts. -/
theorem upTo_succ {lines : List Text} {row : Nat} {line : Text} (found : lines[row]? = some line) :
    upTo lines (row + 1) [] = upTo lines row line ++ ['\n'] := by
  simp [upTo, List.take_add_one, found]

theorem exists_eq_upTo_append {lines : List Text} {row : Nat} {before after : Text}
    (found : lines[row]? = some (before ++ after)) :
    ∃ rest, ['\n'].intercalate lines = upTo lines row before ++ rest := by
  induction lines generalizing row with
  | nil => cases found
  | cons line lines ih =>
      cases row with
      | zero =>
          obtain rfl : line = before ++ after := by simpa using found
          rw [Span.intercalate_append_cons]
          exact ⟨_, rfl⟩
      | succ row =>
          obtain ⟨rest, same⟩ := ih (List.getElem?_cons_succ.symm.trans found)
          cases lines with
          | nil => cases found
          | cons next lines =>
              refine ⟨rest, ?_⟩
              rw [List.intercalate_cons_cons, same]
              simp [upTo]

end Text

namespace Location

/-- How many bytes of a text stand in front of a location: all lines above with their newlines, and
the columns in front of it on its own line. -/
def offset (lines : List Text) (location : Location) : Nat :=
  (lines.take (location.line - 1)).foldr (fun line bytes => utf8.length line + 1 + bytes) 0 +
    (location.column - 1)

theorem length_upTo {lines : List Text} {location : Location} {before : Text}
    (columns : utf8.length before = location.column - 1) :
    utf8.length (Text.upTo lines (location.line - 1) before) = location.offset lines := by
  have above : ∀ front : List Text, utf8.length (front.flatMap (· ++ ['\n'])) =
      front.foldr (fun line bytes => utf8.length line + 1 + bytes) 0 := by
    intro front
    induction front with
    | nil => rfl
    | cons line front ih =>
        have newline : utf8.length ['\n'] = 1 := rfl
        simp only [List.flatMap_cons, PositionEncoding.length_append, newline, ih, List.foldr_cons]
  rw [Text.upTo, PositionEncoding.length_append, above, columns, offset]

end Location

/-- Whether a token covers a part of its line. -/
def Token.Covers (encoding : PositionEncoding) (lines : List Text) (token : Token) (part : Text) :
    Prop :=
  ∃ line, lines[token.line]? = some line ∧
    encoding.slice line token.start token.stop = .ok part

namespace Lexeme

/-- Only lexemes of kind `unknown` are not shown. -/
theorem isShown_iff {lexeme : Lexeme} : lexeme.isShown ↔ lexeme.kind ≠ .unknown := by
  unfold isShown
  cases lexeme.kind <;> simp [LexemeKind.tokenType?]

/-- What it is for tokens to be the parts of a lexeme, line by line. -/
structure IsCover (target : PositionEncoding) (text : Text) (lexeme : Lexeme)
    (group : List Token) : Prop where
  /-- The lexeme counts from one and is not inverted. -/
  valid : lexeme.hasValidRange
  /-- There is one piece for each line from start to stop, counted from zero. -/
  lines_eq : group.map Token.line =
    List.range' (lexeme.start.line - 1) (lexeme.stop.line - lexeme.start.line + 1)
  type_eq : ∀ token ∈ group, lexeme.kind.tokenType? = some token.type
  modifiers_eq : ∀ token ∈ group, token.modifiers = .empty
  /-- What the pieces cover, joined by newlines, is the text from start to stop. -/
  text_eq : ∃ parts, List.Forall₂ (Token.Covers target text.lines) group parts ∧
    utf8.slice text (lexeme.start.offset text.lines) (lexeme.stop.offset text.lines) =
      .ok (['\n'].intercalate parts)

variable {target : PositionEncoding} {lines : List Text} {lexeme : Lexeme} {type : String}

/-! ## One line -/

/-- A piece goes on from the start of its line unless the lexeme starts there, and up to the end of
its line unless the lexeme stops there. -/
theorem IsPiece.exists_part {row : Nat} {token : Token}
    (piece : lexeme.IsPiece target lines type row token) :
    ∃ before part after, lines[row]? = some (before ++ part ++ after) ∧
      token.Covers target lines part ∧
      (row + 1 = lexeme.start.line → utf8.length before = lexeme.start.column - 1) ∧
      (row + 1 ≠ lexeme.start.line → before = []) ∧
      (row + 1 = lexeme.stop.line → utf8.length (before ++ part) = lexeme.stop.column - 1) ∧
      (row + 1 ≠ lexeme.stop.line → after = []) := by
  obtain ⟨before, part, after, found, columns, rfl⟩ := piece
  obtain ⟨first, last⟩ := Prod.mk.inj columns
  refine ⟨before, part, after, found, ⟨_, found, ?_⟩, ?_, ?_, ?_, ?_⟩
  · have stop : Token.stop ⟨row, target.length before, target.length part, type, .empty⟩ =
        target.length (before ++ part) := (PositionEncoding.length_append ..).symm
    rw [stop]
    exact PositionEncoding.slice_append target before part after
  · intro starts
    rw [if_pos starts] at first
    exact first.symm
  · intro inside
    rw [if_neg inside] at first
    exact PositionEncoding.length_eq_zero.mp first.symm
  · intro stops
    rw [if_pos stops] at last
    exact last.symm
  · intro inside
    rw [if_neg inside, PositionEncoding.length_append utf8 (before ++ part)] at last
    have nothing : utf8.length after = 0 := by omega
    exact PositionEncoding.length_eq_zero.mp nothing

/-! ## All lines -/

/-- From a line of the lexeme down to its last one, what the pieces cover leads from the place where
the first of them starts to the place where the lexeme stops. -/
theorem exists_parts {row count : Nat} {tokens : List Token}
    (starts : lexeme.start.line ≤ row + 1) (stops : row + count + 1 = lexeme.stop.line)
    (pieces : List.Forall₂ (lexeme.IsPiece target lines type) (List.range' row (count + 1))
      tokens) :
    ∃ before after part parts last rest, lines[row]? = some (before ++ after) ∧
      (row + 1 = lexeme.start.line → utf8.length before = lexeme.start.column - 1) ∧
      (row + 1 ≠ lexeme.start.line → before = []) ∧
      List.Forall₂ (Token.Covers target lines) tokens (part :: parts) ∧
      lines[row + count]? = some (last ++ rest) ∧
      utf8.length last = lexeme.stop.column - 1 ∧
      Text.upTo lines row before ++ ['\n'].intercalate (part :: parts) =
        Text.upTo lines (row + count) last := by
  -- Down the lines: the piece of a line that is not the last ends in front of its newline, and the
  -- next piece starts right behind.
  induction count generalizing row tokens with
  | zero =>
      obtain ⟨token, _, piece, nothing, rfl⟩ := List.forall₂_cons_left_iff.mp pieces
      cases nothing
      obtain ⟨before, part, after, found, covers, start, inside, stop, -⟩ := piece.exists_part
      refine ⟨before, part ++ after, part, [], before ++ part, after, by simpa using found, start,
        inside, .cons covers .nil, found, stop stops, ?_⟩
      simp [Text.upTo_append]
  | succ count ih =>
      rw [List.range'_succ] at pieces
      obtain ⟨token, others, piece, below, rfl⟩ := List.forall₂_cons_left_iff.mp pieces
      obtain ⟨before, part, after, found, covers, start, inside, -, whole⟩ := piece.exists_part
      obtain ⟨before', after', next, parts, last, rest, -, -, fresh, covered, lastFound, stop,
        leads⟩ := ih (Nat.le_succ_of_le starts) (by omega) below
      obtain rfl := whole (by omega)
      obtain rfl := fresh (by omega)
      have shift : row + (count + 1) = row + 1 + count := by omega
      refine ⟨before, part, part, next :: parts, last, rest, by simpa using found, start, inside,
        .cons covers covered, shift ▸ lastFound, stop, ?_⟩
      calc Text.upTo lines row before ++ ['\n'].intercalate (part :: next :: parts)
        _ = Text.upTo lines row (before ++ part) ++ ['\n'] ++
              ['\n'].intercalate (next :: parts) := by
              rw [List.intercalate_cons_cons, Text.upTo_append]
              simp
        _ = Text.upTo lines (row + 1) [] ++ ['\n'].intercalate (next :: parts) := by
              rw [Text.upTo_succ (by simpa using found)]
        _ = Text.upTo lines (row + (count + 1)) last := by rw [leads, shift]

theorem IsPiece.forall_named {rows : List Nat} {tokens : List Token}
    (pieces : List.Forall₂ (lexeme.IsPiece target lines type) rows tokens) :
    ∀ token ∈ tokens, token.type = type ∧ token.modifiers = .empty := by
  induction pieces with
  | nil => simp
  | cons piece _ ih =>
      obtain ⟨_, _, _, -, -, rfl⟩ := piece
      exact List.forall_mem_cons.mpr ⟨⟨rfl, rfl⟩, ih⟩

/-- The tokens of a lexeme that is shown cover its text. -/
theorem IsGroup.isCover {text : Text} {group : List Token}
    (isGroup : lexeme.IsGroup target text.lines group) : lexeme.IsCover target text group := by
  obtain ⟨valid, type, typed, pieces⟩ := isGroup
  have bounds := bounds_of_hasValidRange valid
  have count : lexeme.stop.line + 1 - lexeme.start.line =
      lexeme.stop.line - lexeme.start.line + 1 := by omega
  rw [count] at pieces
  have named := IsPiece.forall_named pieces
  refine ⟨valid, IsPiece.map_line_eq pieces, ?_, ?_, ?_⟩
  · intro token member
    rw [typed, (named token member).1]
  · exact fun token member => (named token member).2
  · obtain ⟨before, after, part, parts, last, rest, -, start, -, covers, lastFound, stop, leads⟩ :=
      exists_parts (by omega) (by omega) pieces
    have lastRow : lexeme.start.line - 1 + (lexeme.stop.line - lexeme.start.line) =
        lexeme.stop.line - 1 := by omega
    rw [lastRow] at lastFound leads
    obtain ⟨behind, joined⟩ := Text.exists_eq_upTo_append lastFound
    rw [Text.lines, Text.intercalate_split, ← Text.lines, ← leads] at joined
    refine ⟨part :: parts, covers, PositionEncoding.slice_eq_ok_iff.mpr ⟨_, behind, joined, ?_, ?_⟩⟩
    · exact Location.length_upTo (start (by omega))
    · rw [leads]
      exact Location.length_upTo stop

end Lexeme

/-! ## Main result -/

namespace Lexemes

/-- The tokens of lexemes are one group after the other, each of which covers the text of its
lexeme. Lexemes of kind `unknown` have no group. -/
theorem tokens_cover {lexemes : List Lexeme} {text : Text} {target : PositionEncoding}
    {result : List Token} (run : tokens lexemes text.lines target = .ok result) :
    ∃ groups, result = groups.flatten ∧
      List.Forall₂ (Lexeme.IsCover target text) (lexemes.filter (·.kind ≠ .unknown)) groups := by
  obtain ⟨groups, rfl, each⟩ := exists_groups run
  have same : shown lexemes = lexemes.filter (·.kind ≠ .unknown) := by
    apply List.filter_congr
    intro lexeme _
    rw [Bool.eq_iff_iff, Lexeme.isShown_iff, decide_eq_true_iff]
  exact ⟨groups, rfl, same ▸ each.imp fun _ _ group => group.isCover⟩

/-- A comment over an empty line, and a directive that stops in front of the last line. The lexeme
of unknown kind lies nowhere. -/
theorem tokens_cover_comment :
    tokens [⟨.unknown, ⟨9, 9⟩, ⟨0, 0⟩⟩, ⟨.comment, ⟨1, 3⟩, ⟨3, 7⟩⟩,
        ⟨.inclusionDirective, ⟨3, 7⟩, ⟨4, 1⟩⟩] (Text.lines "é/*ü\n\n😀*/\n".toList) .utf16 =
      .ok [⟨0, 1, 3, "comment", .empty⟩, ⟨1, 0, 0, "comment", .empty⟩, ⟨2, 0, 4, "comment", .empty⟩,
        ⟨2, 4, 0, "macro", .empty⟩, ⟨3, 0, 0, "macro", .empty⟩] ∧
    ∃ groups, [⟨0, 1, 3, "comment", .empty⟩, ⟨1, 0, 0, "comment", .empty⟩,
        ⟨2, 0, 4, "comment", .empty⟩, ⟨2, 4, 0, "macro", .empty⟩, ⟨3, 0, 0, "macro", .empty⟩] =
        groups.flatten ∧
      List.Forall₂ (Lexeme.IsCover .utf16 "é/*ü\n\n😀*/\n".toList)
        [⟨.comment, ⟨1, 3⟩, ⟨3, 7⟩⟩, ⟨.inclusionDirective, ⟨3, 7⟩, ⟨4, 1⟩⟩] groups := by
  have run : tokens [⟨.unknown, ⟨9, 9⟩, ⟨0, 0⟩⟩, ⟨.comment, ⟨1, 3⟩, ⟨3, 7⟩⟩,
        ⟨.inclusionDirective, ⟨3, 7⟩, ⟨4, 1⟩⟩] (Text.lines "é/*ü\n\n😀*/\n".toList) .utf16 =
      .ok [⟨0, 1, 3, "comment", .empty⟩, ⟨1, 0, 0, "comment", .empty⟩, ⟨2, 0, 4, "comment", .empty⟩,
        ⟨2, 4, 0, "macro", .empty⟩, ⟨3, 0, 0, "macro", .empty⟩] := by
    decide +kernel
  exact ⟨run, tokens_cover run⟩

end Lexemes

end TokenMarkup
