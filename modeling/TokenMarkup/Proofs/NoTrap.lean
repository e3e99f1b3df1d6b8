import TokenMarkup.Proofs.WordTokens

/-!
# No run traps

The last two stages of a highlighter on a machine with words, and the whole of it. Lines are cut
with a cursor that is an index into the lines, and the markup is written into room for twice the
bytes of the text. Main statement: `markup_never_traps`, for every request whose stream has fewer
than `2 ^ 32` tokens.

What numbers the entries of a list, such as the position of a token or the two indices of a merge,
is at most the length of that list and a word because the list is in memory; such numbers are not
guarded. For the same reason the room that is set aside for the results of the merge and of the cut
is a word (`reserve_eq`), which is shown apart from the run, for it takes that the lists are in
memory and not only the text.
-/

namespace TokenMarkup

open PositionEncoding (utf8)

namespace Machine

/-! ## Cutting -/

/-- The part of the line `row` between two positions. -/
def sliceAt (encoding : PositionEncoding) (lines : List Text) (row start stop : Nat) :
    Run Text := do
  let line ← entry lines row
  (slice encoding line start stop).locate row

/-- What is left of the line `row`, and the newline behind it unless it is the last one. -/
def drain (encoding : PositionEncoding) (lines : List Text) (row column : Nat) :
    Run (List Span) := do
  let line ← entry lines row
  let length ← measure encoding line
  let rest ← sliceAt encoding lines row column length
  let next ← add row 1
  return Span.plain? rest ++ if next < lines.length then [.lineBreak] else []

/-- Moves down to the line `target`, line by line. -/
def descend (encoding : PositionEncoding) (lines : List Text) (target row column : Nat) :
    Run (List Span × Nat × Nat) :=
  if row < target then do
    let passed ← drain encoding lines row column
    let (spans, place) ← descend encoding lines target (row + 1) 0
    return (passed ++ spans, place)
  else .ok ([], row, column)
termination_by target - row

/-- The gap in front of a token, if there is one. -/
def gapAt (encoding : PositionEncoding) (lines : List Text) (row column start : Nat) :
    Run (List Span) :=
  if column < start then
    (fun text => [Span.plain text]) <$> sliceAt encoding lines row column start
  else .ok []

/-- The gap in front of a token, and the token's own stretch. -/
def cutToken (encoding : PositionEncoding) (lines : List Text) (row column : Nat) (token : Token) :
    Run (List Span) := do
  let gap ← gapAt encoding lines row column token.start
  let stop ← add token.start token.length
  let text ← sliceAt encoding lines row token.start stop
  return gap ++ [.styled text token]

/-- Cuts the lines from a place on along the rest of the tokens. -/
def cutFrom (encoding : PositionEncoding) (lines : List Text) (frontier : Frontier)
    (row column : Nat) : List Token → Run (List Span)
  | [] => do
    let (spans, _) ← descend encoding lines lines.length row column
    return spans
  | token :: rest => do
    let frontier ← accept frontier token
    if lines.length ≤ token.line then throw (.fault (.lineOutOfRange token.line lines.length))
    let (passed, row, column) ← descend encoding lines token.line row column
    let cut ← cutToken encoding lines row column token
    let column ← add token.start token.length
    let others ← cutFrom encoding lines frontier row column rest
    return passed ++ cut ++ others

section Cutting

variable {encoding : PositionEncoding} {lines : List Text} {row : Nat} {line : Text}

theorem sliceAt_eq (held : Held lines) (found : lines[row]? = some line) (start stop : Nat) :
    sliceAt encoding lines row start stop = .of (locate row (encoding.slice line start stop)) := by
  unfold sliceAt
  rw [entry_eq found, Run.ok_bind, slice_eq (held.bytes line (List.mem_of_getElem? found)),
    Run.locate_of]

theorem drain_eq (held : Held lines) (found : lines[row]? = some line) (column : Nat) :
    drain encoding lines row column =
      .of ((fun rest => Span.plain? rest ++ if row + 1 < lines.length then [.lineBreak] else []) <$>
        locate row (encoding.slice line column (encoding.length line))) := by
  have inside : row < lines.length := (List.getElem?_eq_some_iff.mp found).1
  unfold drain
  rw [entry_eq found, Run.ok_bind, measure_eq (held.bytes line (List.mem_of_getElem? found)),
    Run.ok_bind, sliceAt_eq held found, add_eq (Nat.lt_of_le_of_lt inside held.count),
    ← Run.map_of]
  rfl

/-- As long as the machine does not go behind the last line, it passes the same lines. -/
theorem descend_eq (held : Held lines) {target : Nat} (bounded : target ≤ lines.length)
    (row column : Nat) :
    descend encoding lines target row column =
      .of ((fun result => (result.1, result.2.row, result.2.column)) <$>
        Span.descend encoding target row column (lines.drop row)) := by
  induction row, column using descend.induct target with
  | case1 row column above ih =>
      have inside : row < lines.length := Nat.lt_of_lt_of_le above bounded
      have found : lines[row]? = some lines[row] := List.getElem?_eq_getElem inside
      have separator : (if (lines.drop (row + 1)).isEmpty then [] else [Span.lineBreak]) =
          if row + 1 < lines.length then [Span.lineBreak] else [] := by
        simp only [List.isEmpty_iff, List.drop_eq_nil_iff, ← Nat.not_lt, ite_not]
      rw [descend, if_pos above, List.drop_eq_getElem_cons inside, Span.descend, if_pos above,
        drain_eq held found, ih, separator]
      cases locate row (encoding.slice lines[row] column (encoding.length lines[row])) with
      | error fault => rfl
      | ok tail =>
          cases Span.descend encoding target (row + 1) 0 (lines.drop (row + 1)) <;> rfl
  | case2 row column reached =>
      rw [descend, if_neg reached]
      cases lines.drop row with
      | nil => rfl
      | cons line rest =>
          rw [Span.descend, if_neg reached]
          rfl

/-- The cursor has the lines from its row on, and is not below both where it was and where it was
sent. -/
theorem exists_cursor_of_descend {target row column : Nat} {spans : List Span}
    {cursor : Span.Cursor}
    (run : Span.descend encoding target row column (lines.drop row) = .ok (spans, cursor)) :
    ∃ row' column', cursor = ⟨row', column', lines.drop row'⟩ ∧ row' ≤ max row target := by
  induction row, column using descend.induct target generalizing spans with
  | case1 row column above ih =>
      by_cases inside : row < lines.length
      · rw [List.drop_eq_getElem_cons inside, Span.descend, if_pos above] at run
        obtain ⟨tail, -, run⟩ := bind_eq_ok_iff.mp run
        obtain ⟨⟨others, last⟩, run, same⟩ := bind_eq_ok_iff.mp run
        cases same
        obtain ⟨row', column', same, bounded⟩ := ih run
        exact ⟨row', column', same, by omega⟩
      · have passed : lines.drop row = [] := List.drop_eq_nil_of_le (Nat.le_of_not_lt inside)
        rw [passed, Span.descend] at run
        cases run
        exact ⟨row, column, by rw [passed], Nat.le_max_left _ _⟩
  | case2 row column reached =>
      refine ⟨row, column, ?_, Nat.le_max_left _ _⟩
      cases left : lines.drop row with
      | nil =>
          rw [left, Span.descend] at run
          cases run
          rfl
      | cons line rest =>
          rw [left, Span.descend, if_neg reached] at run
          cases run
          rfl

theorem gapAt_eq (held : Held lines) (found : lines[row]? = some line) (column start : Nat) :
    gapAt encoding lines row column start = .of (if column < start then
      (fun text => [Span.plain text]) <$> locate row (encoding.slice line column start)
      else .ok []) := by
  unfold gapAt
  split
  · rw [sliceAt_eq held found, Run.map_of]
  · rfl

theorem cutToken_eq (held : Held lines) (found : lines[row]? = some line) {token : Token}
    (short : token.stop < UInt64.size) (column : Nat) :
    cutToken encoding lines row column token =
      .of (Span.cutToken encoding row column line token) := by
  unfold cutToken Span.cutToken
  rw [add_eq short, gapAt_eq held found]
  simp only [sliceAt_eq held found, Run.ok_bind]
  split
  · refine Run.bind_of rfl fun gap _ => ?_
    exact Run.bind_of rfl fun text _ => rfl
  · rw [Run.of_ok, Run.ok_bind]
    exact Run.bind_of rfl fun text _ => rfl

theorem cutFrom_eq (held : Held lines) {tokens : List Token}
    (short : ∀ token ∈ tokens, token.stop < UInt64.size) (frontier : Frontier) {row : Nat}
    (inside : row < lines.length) (column : Nat) :
    cutFrom encoding lines frontier row column tokens =
      .of (Span.cutFrom encoding lines.length frontier ⟨row, column, lines.drop row⟩ tokens) := by
  -- The row stays an index of the lines, for the cursor is sent only to lines that exist. Behind
  -- the last token it goes down to the end, and is not used again.
  induction tokens generalizing frontier row column with
  | nil =>
      rw [cutFrom, Span.cutFrom, descend_eq held (Nat.le_refl _)]
      cases Span.descend encoding lines.length row column (lines.drop row) <;> rfl
  | cons token rest ih =>
      obtain ⟨tokenShort, restShort⟩ := List.forall_mem_cons.mp short
      rw [cutFrom, Span.cutFrom]
      refine Run.bind_of (accept_eq tokenShort frontier) fun frontier _ => ?_
      by_cases missing : lines.length ≤ token.line
      · simp only [if_pos missing]
        rfl
      · simp only [if_neg missing]
        have exists_line : token.line < lines.length := Nat.lt_of_not_le missing
        rw [descend_eq held (Nat.le_of_lt exists_line), ← Run.map_of]
        cases moved : Span.descend encoding token.line row column (lines.drop row) with
        | error fault => rfl
        | ok result =>
            obtain ⟨passed, cursor⟩ := result
            obtain ⟨row, column, rfl, bounded⟩ := exists_cursor_of_descend moved
            have below : row < lines.length := by omega
            have more := ih restShort frontier below token.stop
            rw [List.drop_eq_getElem_cons below] at more ⊢
            refine Run.bind_of (cutToken_eq held (List.getElem?_eq_getElem below) tokenShort column)
              fun cut _ => ?_
            rw [add_eq tokenShort, Run.ok_bind]
            exact Run.bind_of more fun others _ => rfl

end Cutting

/-! ## Highlighting -/

/-- Spans as markup, for which room for twice their bytes is set aside. -/
def render (stems : ClassStems) (spans : List Span) : Run Text := do
  let bytes ← spans.foldlM (fun total span => add total (utf8.length span.text)) 0
  let _ ← mul bytes 2
  return Markup.render stems spans

/-- The lexical tokens of a request. -/
def lexical (request : Request) (settings : Settings) : Run (List Token) :=
  if request.usesLexemes then
    piecesOfAll (request.encoding settings) request.lines 0 request.lexemes
  else .ok []

/-- The semantic tokens of a request laid over the lexical ones. -/
def overlay (request : Request) (settings : Settings) : Run Overlay := do
  let semantic ← decode request.stream request.legend
  let lexical ← lexical request settings
  mergeAt semantic lexical { stream := .semantic } { stream := .lexical } 0 0

/-- The spans of a request's text. -/
def spans (request : Request) (settings : Settings) : Run (List Span) := do
  let overlay ← overlay request settings
  cutFrom (request.encoding settings) request.lines { stream := .merged } 0 0 overlay.tokens

/-- A request's text as markup. -/
def markup (request : Request) (settings : Settings) : Run Text := do
  let spans ← spans request settings
  render settings.stems spans

/-- The room that a run sets aside: ahead of the merge for all tokens of both lists, and ahead of
the cut for two spans to each token and two to each line. -/
def reserve (request : Request) (settings : Settings) : Run (Nat × Nat) := do
  let semantic ← decode request.stream request.legend
  let lexical ← lexical request settings
  let merged ← add semantic.length lexical.length
  let overlay ← mergeAt semantic lexical { stream := .semantic } { stream := .lexical } 0 0
  let forTokens ← mul overlay.tokens.length 2
  let forLines ← mul request.lines.length 2
  let cut ← add forTokens forLines
  return (merged, cut)

section Highlighting

variable {request : Request} {settings : Settings}

theorem foldr_length_text (spans : List Span) :
    spans.foldr (fun span sum => utf8.length span.text + sum) 0 =
      utf8.length (spans.flatMap Span.text) := by
  induction spans with
  | nil => rfl
  | cons span rest ih =>
      rw [List.foldr_cons, ih, List.flatMap_cons, PositionEncoding.length_append]

theorem render_eq {spans : List Span} (sized : utf8.length (spans.flatMap Span.text) < 2 ^ 63)
    (stems : ClassStems) : render stems spans = .ok (Markup.render stems spans) := by
  unfold render
  rw [foldlM_add_eq _ _ _ (by rw [foldr_length_text, UInt64.size]; omega), foldr_length_text,
    Run.ok_bind, mul_eq (by rw [UInt64.size]; omega)]
  rfl

theorem lexical_eq (held : Held request.lines) :
    lexical request settings = .of (request.lexical settings) := by
  unfold lexical Request.lexical
  split
  · exact piecesOfAll_eq held request.lexemes
  · rfl

/-- Every lexical token ends at a word, for it ends inside a line. -/
theorem stop_lt_of_lexical {tokens : List Token} (held : Held request.lines)
    (run : request.lexical settings = .ok tokens) : ∀ token ∈ tokens, token.stop < UInt64.size := by
  intro token member
  unfold Request.lexical at run
  split at run
  · obtain ⟨line, found, -, before, after, same, measured⟩ :=
      Lexemes.fits_of_tokens run token member
    calc token.stop
        = (request.encoding settings).length before := measured.symm
      _ ≤ (request.encoding settings).length line := by
          rw [same, PositionEncoding.length_append]
          exact Nat.le_add_right _ _
      _ ≤ utf8.length line := PositionEncoding.length_le_utf8 _ _
      _ < UInt64.size := held.bytes line (List.mem_of_getElem? found)
  · cases run
    cases member

theorem merge_eq {semantic lexical : List Token}
    (few : (Wire.groups request.stream).length < 2 ^ 32) (held : Held request.lines)
    (decoded : request.semantic = .ok semantic) (adapted : request.lexical settings = .ok lexical) :
    mergeAt semantic lexical { stream := .semantic } { stream := .lexical } 0 0 =
      .of (Overlay.merge semantic lexical) :=
  mergeAt_eq (stop_lt_of_decode few decoded) (stop_lt_of_lexical held adapted) _ _ 0 0
    (Nat.zero_le _) (Nat.zero_le _)

theorem overlay_eq (few : (Wire.groups request.stream).length < 2 ^ 32)
    (held : Held request.lines) :
    overlay request settings = .of (request.overlay settings) := by
  unfold overlay Request.overlay
  refine Run.bind_of (decode_eq few) fun semantic decoded => ?_
  refine Run.bind_of (lexical_eq held) fun lexical adapted => ?_
  exact merge_eq few held decoded adapted

/-- Setting room aside never traps. The lists are in memory, where no list of lines or of tokens has
`2 ^ 59` entries, for each of them takes more than 15 bytes. -/
theorem reserve_eq (few : (Wire.groups request.stream).length < 2 ^ 32)
    (sized : utf8.length request.text < 2 ^ 63) (lines : request.lines.length < 2 ^ 59)
    (tokens : ∀ lexical, request.lexical settings = .ok lexical → lexical.length < 2 ^ 59) :
    reserve request settings = .of (do
      let semantic ← request.semantic
      let lexical ← request.lexical settings
      let overlay ← Overlay.merge semantic lexical
      return (semantic.length + lexical.length,
        overlay.tokens.length * 2 + request.lines.length * 2)) := by
  have held : Held request.lines := held_lines sized
  unfold reserve
  refine Run.bind_of (decode_eq few) fun semantic decoded => ?_
  refine Run.bind_of (lexical_eq held) fun lexical adapted => ?_
  have semanticCount : semantic.length < 2 ^ 32 := length_of_decode decoded ▸ few
  have lexicalCount := tokens lexical adapted
  rw [add_eq (by rw [UInt64.size]; omega), Run.ok_bind]
  refine Run.bind_of (merge_eq few held decoded adapted) fun overlay merged => ?_
  obtain ⟨count, -⟩ := Overlay.length_tokens merged
  rw [mul_eq (by rw [UInt64.size]; omega), Run.ok_bind, mul_eq (by rw [UInt64.size]; omega),
    Run.ok_bind, add_eq (by rw [UInt64.size]; omega)]
  rfl

theorem stop_lt_of_overlay {overlay : Overlay}
    (few : (Wire.groups request.stream).length < 2 ^ 32) (held : Held request.lines)
    (run : request.overlay settings = .ok overlay) :
    ∀ token ∈ overlay.tokens, token.stop < UInt64.size := by
  obtain ⟨semantic, decoded, run⟩ := bind_eq_ok_iff.mp run
  obtain ⟨lexical, adapted, merged⟩ := bind_eq_ok_iff.mp run
  intro token member
  rw [(Overlay.merge_tokens merged).1, Overlay.mem_arranged, Overlay.mem_clear] at member
  obtain ⟨fromLexical, -⟩ | fromSemantic := member
  · exact stop_lt_of_lexical held adapted token fromLexical
  · exact stop_lt_of_decode few decoded token fromSemantic

theorem spans_eq (few : (Wire.groups request.stream).length < 2 ^ 32)
    (held : Held request.lines) : spans request settings = .of (request.spans settings) := by
  have someLine : 0 < request.lines.length :=
    List.length_pos_iff.mpr (Text.split_ne_nil '\n' request.text)
  have same : request.spans settings = (do
      let overlay ← request.overlay settings
      Span.ofTokens overlay.tokens request.lines (request.encoding settings)) := by
    unfold Request.spans Request.tokens
    cases request.overlay settings <;> rfl
  rw [same]
  unfold spans
  refine Run.bind_of (overlay_eq few held) fun overlay merged => ?_
  exact cutFrom_eq held (stop_lt_of_overlay few held merged) _ someLine 0

/-- A run on the machine never traps, and comes to what the request comes to without words: the same
markup or the same fault. It is enough that the stream has fewer than `2 ^ 32` tokens, and that the
text is in memory, where no text has `2 ^ 63` bytes. -/
theorem markup_never_traps (request : Request) (settings : Settings)
    (few : (Wire.groups request.stream).length < 2 ^ 32)
    (sized : utf8.length request.text < 2 ^ 63) :
    (∀ trap, markup request settings ≠ .error (.trap trap)) ∧
      markup request settings = .of (request.markup settings) ∧
      (∀ tokens, request.semantic = .ok tokens → ∀ token ∈ tokens, token.stop < UInt64.size) ∧
      ∀ tokens, request.lexical settings = .ok tokens →
        ∀ token ∈ tokens, token.stop < UInt64.size := by
  have held : Held request.lines := held_lines sized
  have same : markup request settings = .of (request.markup settings) := by
    unfold markup Request.markup
    rw [map_eq_pure_bind]
    refine Run.bind_of (spans_eq few held) fun spans cut => ?_
    exact render_eq (by rwa [Request.flatMap_text_spans cut]) settings.stems
  refine ⟨fun trap => ?_, same, ?_, ?_⟩
  · rw [same]
    exact Run.of_ne_trap _ trap
  · exact fun tokens decoded => stop_lt_of_decode few decoded
  · exact fun tokens adapted => stop_lt_of_lexical held adapted

/-- A comment over two lines with characters of several widths, and behind it a token as far away
as one can be. The words hold it, and it is reported. -/
theorem markup_never_traps_far :
    markup
      { text := "/*😀\né*/ x".toList, legend := ⟨["variable"], []⟩,
        stream := [1, 4, 1, 0, 0, 4294967295, 4294967295, 4294967295, 0, 0],
        lexemes := [⟨.comment, ⟨1, 1⟩, ⟨2, 5⟩⟩] } {} =
      .error (.fault (.lineOutOfRange 4294967296 2)) := by
  obtain ⟨-, same, -⟩ := markup_never_traps
    { text := "/*😀\né*/ x".toList, legend := ⟨["variable"], []⟩,
      stream := [1, 4, 1, 0, 0, 4294967295, 4294967295, 4294967295, 0, 0],
      lexemes := [⟨.comment, ⟨1, 1⟩, ⟨2, 5⟩⟩] } {} (by decide) (by decide)
  exact same.trans (by decide +kernel)

end Highlighting

end Machine

end TokenMarkup
