import Mathlib.Algebra.Group.Nat.Defs
import TokenMarkup.Proofs.Fidelity
import TokenMarkup.Proofs.LexemePieces
import TokenMarkup.Proofs.Overlay
import TokenMarkup.Proofs.RoundTrip
import TokenMarkup.Proofs.Words

/-!
# Tokens on a machine with words

The machine decodes a stream, takes lexemes apart and merges two streams by index, each sum and
difference being a word and each index inside its list. It runs as it would without words
(`decode_eq`, `piecesOfAll_eq`, `mergeAt_eq`), and each fact behind that comes from elsewhere: a
stream of fewer than `2 ^ 32` tokens has its last token in reach of 64 bits (`InReach`), what a
lexeme subtracts from was seen to count from one, and a token that is to be merged ends at a word,
being decoded (`stop_lt_of_decode`) or inside a line.
-/

namespace TokenMarkup

open PositionEncoding (utf8)

/-! ## What is in memory -/

namespace Text

theorem utf8_length_le_of_mem_split (separator : Char) (text : Text) :
    ∀ part ∈ split separator text, utf8.length part ≤ utf8.length text := by
  induction text with
  | nil => simp
  | cons c rest ih =>
      obtain ⟨part, parts, parted⟩ := List.exists_cons_of_ne_nil (split_ne_nil separator rest)
      have wider : ∀ part ∈ split separator rest, utf8.length part ≤ utf8.length (c :: rest) :=
        fun part member => Nat.le_trans (ih part member) (Nat.le_add_left _ _)
      rw [parted] at ih wider
      rw [split_cons, parted, consPart]
      split
      · exact List.forall_mem_cons.mpr ⟨Nat.zero_le _, wider⟩
      · obtain ⟨first, -⟩ := List.forall_mem_cons.mp ih
        obtain ⟨-, others⟩ := List.forall_mem_cons.mp wider
        exact List.forall_mem_cons.mpr ⟨Nat.add_le_add_left first _, others⟩

theorem length_split_le (separator : Char) (text : Text) :
    (split separator text).length ≤ utf8.length text + 1 := by
  induction text with
  | nil => exact Nat.le_refl _
  | cons c rest ih =>
      obtain ⟨part, parts, parted⟩ := List.exists_cons_of_ne_nil (split_ne_nil separator rest)
      have someByte := utf8.width_pos c
      rw [parted] at ih
      rw [split_cons, parted, consPart, PositionEncoding.length_cons]
      split
      all_goals
        simp only [List.length_cons] at ih ⊢
        omega

end Text

namespace Machine

/-- Whether words can count the lines, and the bytes of each of them. -/
structure Held (lines : List Text) : Prop where
  bytes : ∀ line ∈ lines, utf8.length line < UInt64.size
  count : lines.length < UInt64.size

theorem held_lines {text : Text} (sized : utf8.length text < 2 ^ 63) : Held text.lines where
  bytes line member := by
    have shorter := Text.utf8_length_le_of_mem_split '\n' text line member
    simp only [UInt64.size]
    omega
  count := by
    have fewer := Text.length_split_le '\n' text
    simp only [UInt64.size, Text.lines]
    omega

/-! ## Decoding -/

/-- The entries of a relative token. -/
def entries (token : RelativeToken) : List UInt32 :=
  [token.deltaLine, token.deltaStart, token.length, token.type, token.modifiers]

/-- The stretches of `Wire.stride` entries that a stream divides into. -/
def chunks (stream : List UInt32) : List (List UInt32) :=
  (List.range (stream.length / Wire.stride)).map fun ordinal =>
    (stream.drop (ordinal * Wire.stride)).take Wire.stride

/-- The type name of token `ordinal`, which starts at entry `position` of the stream. -/
def resolveType (legend : Legend) (ordinal position : Nat) (index : UInt32) : Run String :=
  match legend.type? index.toNat with
  | some name => .ok name
  | none => do
    let position ← add position 3
    throw (.fault (.malformedStream position
      (.undefinedType ordinal index.toNat legend.types.length)))

/-- The name of one modifier bit of token `ordinal`, which starts at entry `position`. -/
def resolveBit (legend : Legend) (ordinal position bit : Nat) : Run String :=
  match legend.modifier? bit with
  | some name => .ok name
  | none => do
    let position ← add position 4
    throw (.fault (.malformedStream position
      (.undefinedModifier ordinal bit legend.modifiers.length)))

/-- The modifiers of token `ordinal`, which starts at entry `position`. -/
def resolveModifiers (legend : Legend) (ordinal position : Nat) (entry : UInt32) : Run Modifiers :=
  (Wire.setBits entry).foldlM
    (fun set bit => set.insert <$> resolveBit legend ordinal position bit) .empty

/-- Where a token starts in its line, given where the one in front of it does. -/
def nextStart (start : Nat) (deltaLine deltaStart : UInt32) : Run Nat :=
  if deltaLine = 0 then add start deltaStart.toNat else .ok deltaStart.toNat

/-- The absolute tokens of what is left of a stream. -/
def resolve (legend : Legend) (ordinal line start : Nat) : List (List UInt32) → Run (List Token)
  | [] => .ok []
  | group :: rest => do
    let position ← mul ordinal Wire.stride
    let deltaLine ← entry group 0
    let deltaStart ← entry group 1
    let length ← entry group 2
    let typeIndex ← entry group 3
    let bits ← entry group 4
    let line ← add line deltaLine.toNat
    let start ← nextStart start deltaLine deltaStart
    let type ← resolveType legend ordinal position typeIndex
    let modifiers ← resolveModifiers legend ordinal position bits
    let others ← resolve legend (ordinal + 1) line start rest
    return ⟨line, start, length.toNat, type, modifiers⟩ :: others

/-- The absolute tokens of a stream. -/
def decode (stream : List UInt32) (legend : Legend) : Run (List Token) :=
  if stream.length % Wire.stride ≠ 0 then do
    let position ← sub stream.length (stream.length % Wire.stride)
    throw (.fault (.malformedStream position (.ragged stream.length Wire.stride)))
  else resolve legend 0 0 0 (chunks stream)

section Decoding

variable {legend : Legend} {ordinal : Nat}

theorem chunks_flatten (relatives : List RelativeToken) :
    chunks (Wire.flatten relatives) = relatives.map entries := by
  unfold chunks
  rw [Wire.length_flatten, Nat.mul_div_cancel_left _ (by decide)]
  induction relatives with
  | nil => rfl
  | cons token rest ih =>
      rw [List.length_cons, List.range_succ_eq_map, List.map_cons, List.map_map, List.map_cons,
        ← ih]
      congr 1
      apply List.map_congr_left
      intro number _
      have shift : (number + 1) * Wire.stride = number * Wire.stride + 5 := Nat.succ_mul _ _
      simp only [Function.comp, Nat.succ_eq_add_one, shift]
      rfl

theorem add_position (early : ordinal < 2 ^ 32) {offset : Nat} (inGroup : offset < Wire.stride) :
    add (ordinal * Wire.stride) offset = .ok (ordinal * Wire.stride + offset) := by
  refine add_eq ?_
  simp only [Wire.stride, UInt64.size] at inGroup ⊢
  omega

theorem resolveType_eq (early : ordinal < 2 ^ 32) (index : UInt32) :
    resolveType legend ordinal (ordinal * Wire.stride) index =
      .of (Wire.resolveType legend ordinal index) := by
  unfold resolveType Wire.resolveType
  cases legend.type? index.toNat with
  | some name => rfl
  | none =>
      rw [add_position early (by decide)]
      rfl

theorem resolveBit_eq (early : ordinal < 2 ^ 32) (bit : Nat) :
    resolveBit legend ordinal (ordinal * Wire.stride) bit =
      .of (Wire.resolveBit legend ordinal bit) := by
  unfold resolveBit Wire.resolveBit
  cases legend.modifier? bit with
  | some name => rfl
  | none =>
      rw [add_position early (by decide)]
      rfl

theorem resolveModifiers_eq (early : ordinal < 2 ^ 32) (entry : UInt32) :
    resolveModifiers legend ordinal (ordinal * Wire.stride) entry =
      .of (Wire.resolveModifiers legend ordinal entry) := by
  refine Run.foldlM_of (fun bit _ set => ?_) _
  rw [resolveBit_eq early, Run.map_of]

/-- Where the cursor can be after `ordinal` tokens: each of them moves it by less than `2 ^ 32`. -/
structure InReach (ordinal line start : Nat) : Prop where
  line_le : line ≤ ordinal * (2 ^ 32 - 1)
  start_le : start ≤ ordinal * (2 ^ 32 - 1)

theorem InReach.next {line start : Nat} (reach : InReach ordinal line start)
    (token : RelativeToken) :
    InReach (ordinal + 1) (line + token.deltaLine.toNat)
      (if token.deltaLine = 0 then start + token.deltaStart.toNat else token.deltaStart.toNat) := by
  obtain ⟨line_le, start_le⟩ := reach
  have deltaLine_lt := token.deltaLine.toNat_lt
  have deltaStart_lt := token.deltaStart.toNat_lt
  constructor
  · omega
  · split <;> omega

theorem nextStart_eq {start : Nat} {token : RelativeToken}
    (room : (if token.deltaLine = 0 then start + token.deltaStart.toNat
      else token.deltaStart.toNat) < UInt64.size) :
    nextStart start token.deltaLine token.deltaStart =
      .ok (if token.deltaLine = 0 then start + token.deltaStart.toNat
        else token.deltaStart.toNat) := by
  unfold nextStart
  split
  · next sameLine =>
      rw [if_pos sameLine] at room
      exact add_eq room
  · rfl

theorem resolve_eq {relatives : List RelativeToken} {line start : Nat}
    (reach : InReach ordinal line start) (few : ordinal + relatives.length < 2 ^ 32) :
    resolve legend ordinal line start (relatives.map entries) =
      .of (Wire.resolve legend ordinal line start relatives) := by
  -- The invariant is `InReach`: with fewer than `2 ^ 32` tokens in all, it keeps every sum below
  -- `2 ^ 32 * (2 ^ 32 - 1)`.
  induction relatives generalizing ordinal line start with
  | nil => rfl
  | cons token rest ih =>
      rw [List.length_cons] at few
      have moved := reach.next token
      have line_le := moved.line_le
      have start_le := moved.start_le
      have early : ordinal < 2 ^ 32 := by omega
      have position : mul ordinal Wire.stride = .ok (ordinal * Wire.stride) := by
        refine mul_eq ?_
        simp only [Wire.stride, UInt64.size]
        omega
      have lineSum : add line token.deltaLine.toNat = .ok (line + token.deltaLine.toNat) := by
        refine add_eq ?_
        simp only [UInt64.size]
        omega
      have startSum := nextStart_eq (Nat.lt_of_le_of_lt start_le
        (by simp only [UInt64.size]; omega))
      rw [List.map_cons, resolve, Wire.resolve]
      simp only [position, entries, entry, List.getElem?_cons_zero, List.getElem?_cons_succ,
        Run.ok_bind, lineSum, startSum]
      refine Run.bind_of (resolveType_eq early token.type) fun type _ => ?_
      refine Run.bind_of (resolveModifiers_eq early token.modifiers) fun modifiers _ => ?_
      exact Run.bind_of (ih moved (by omega)) fun others _ => rfl

/-- No stream of fewer than `2 ^ 32` tokens makes the decoder trap. -/
theorem decode_eq {stream : List UInt32} (few : (Wire.groups stream).length < 2 ^ 32) :
    decode stream legend = .of (Wire.decode stream legend) := by
  unfold decode Wire.decode
  split
  · rw [sub_eq (Nat.mod_le _ _)]
    rfl
  · next whole =>
      nth_rewrite 1 [← Wire.flatten_groups stream (by simpa using whole)]
      rw [chunks_flatten]
      exact resolve_eq ⟨Nat.zero_le _, Nat.zero_le _⟩ (by rwa [Nat.zero_add])

theorem stop_lt_of_resolve {relatives : List RelativeToken} {line start : Nat}
    {tokens : List Token} (reach : InReach ordinal line start)
    (few : ordinal + relatives.length < 2 ^ 32)
    (run : Wire.resolve legend ordinal line start relatives = .ok tokens) :
    ∀ token ∈ tokens, token.stop < UInt64.size := by
  induction relatives generalizing ordinal line start tokens with
  | nil =>
      cases run
      simp
  | cons relative rest ih =>
      rw [List.length_cons] at few
      have moved := reach.next relative
      have start_le := moved.start_le
      have length_lt := relative.length.toNat_lt
      obtain ⟨type, modifiers, others, -, -, more, rfl⟩ := Wire.resolve_cons_eq_ok_iff.mp run
      refine List.forall_mem_cons.mpr ⟨?_, ih moved (by omega) more⟩
      simp only [Token.stop, UInt64.size]
      omega

/-- Every decoded token ends at a word. -/
theorem stop_lt_of_decode {stream : List UInt32} {tokens : List Token}
    (few : (Wire.groups stream).length < 2 ^ 32) (run : Wire.decode stream legend = .ok tokens) :
    ∀ token ∈ tokens, token.stop < UInt64.size := by
  unfold Wire.decode at run
  split at run
  · cases run
  · exact stop_lt_of_resolve ⟨Nat.zero_le _, Nat.zero_le _⟩ (by simpa using few) run

theorem length_of_decode {stream : List UInt32} {tokens : List Token}
    (run : Wire.decode stream legend = .ok tokens) :
    (Wire.groups stream).length = tokens.length := by
  unfold Wire.decode at run
  split at run
  · cases run
  · exact (Wire.length_of_resolve run).symm

end Decoding

/-! ## Lexemes -/

/-- The byte column, counted from zero, at which a lexeme starts or stops on a line: its own column
on the line `bound`, and `otherwise` on any other line. -/
def byteColumn (number : Nat) (bound : Location) (otherwise : Nat) : Run Nat :=
  if number = bound.line then sub bound.column 1 else .ok otherwise

/-- The token for the part of a lexeme on a line, the number of which counts from one. -/
def piece (target : PositionEncoding) (lines : List Text) (position : Nat) (lexeme : Lexeme)
    (type : String) (number : Nat) : Run Token := do
  let row ← sub number 1
  match lines[row]? with
  | none => throw (.fault (.lineOutOfRange row lines.length))
  | some line => do
    let startByte ← byteColumn number lexeme.start 0
    let stopByte ← byteColumn number lexeme.stop (utf8.length line)
    let start ← (convert line startByte .utf8 target).locate row
    let stop ← (convert line stopByte .utf8 target).locate row
    if stop < start then throw (.fault (lexeme.rangeFault position))
    let length ← sub stop start
    return { line := row, start, length, type }

/-- The tokens of a lexeme, line by line from its first to its last. -/
def pieces (target : PositionEncoding) (lines : List Text) (position : Nat) (lexeme : Lexeme) :
    Run (List Token) :=
  match lexeme.kind.tokenType? with
  | none => .ok []
  | some type =>
    if lexeme.hasValidRange then
      (List.range' lexeme.start.line (lexeme.stop.line + 1 - lexeme.start.line)).mapM
        (piece target lines position lexeme type)
    else .error (.fault (lexeme.rangeFault position))

/-- The tokens of a list of lexemes, the first of which has number `position`. -/
def piecesOfAll (target : PositionEncoding) (lines : List Text) (position : Nat) :
    List Lexeme → Run (List Token)
  | [] => .ok []
  | lexeme :: rest => do
    let tokens ← pieces target lines position lexeme
    let others ← piecesOfAll target lines (position + 1) rest
    return tokens ++ others

section Lexemes

variable {target : PositionEncoding} {lines : List Text} {position : Nat} {lexeme : Lexeme}

theorem byteColumn_eq {bound : Location} (oneBased : 1 ≤ bound.column) (number otherwise : Nat) :
    byteColumn number bound otherwise =
      .ok (if number = bound.line then bound.column - 1 else otherwise) := by
  unfold byteColumn
  split
  · exact sub_eq oneBased
  · rfl

theorem piece_eq (held : Held lines) (valid : lexeme.hasValidRange) (type : String)
    (row : Nat) :
    piece target lines position lexeme type (row + 1) =
      .of (lexeme.piece target lines position type row) := by
  obtain ⟨-, startColumn, -, stopColumn, -⟩ := Lexeme.bounds_of_hasValidRange valid
  unfold piece Lexeme.piece
  rw [sub_eq (Nat.le_add_left 1 row), Run.ok_bind, Nat.add_sub_cancel]
  cases found : lines[row]? with
  | none => rfl
  | some line =>
      have short := held.bytes line (List.mem_of_getElem? found)
      simp only [byteColumn_eq startColumn, byteColumn_eq stopColumn, Run.ok_bind,
        convert_eq short, Run.locate_of, Lexeme.columns]
      refine Run.bind_of rfl fun start _ => ?_
      refine Run.bind_of rfl fun stop _ => ?_
      split
      · rfl
      · next forward =>
          rw [sub_eq (Nat.le_of_not_lt forward)]
          rfl

theorem mapM_piece_eq (held : Held lines) (valid : lexeme.hasValidRange) (type : String)
    (row count : Nat) :
    (List.range' (row + 1) count).mapM (piece target lines position lexeme type) =
      .of (lexeme.piecesFrom target lines position type row count) := by
  induction count generalizing row with
  | zero => rfl
  | succ count ih =>
      rw [List.range'_succ, List.mapM_cons, Lexeme.piecesFrom]
      refine Run.bind_of (piece_eq held valid type row) fun token _ => ?_
      exact Run.bind_of (ih (row + 1)) fun others _ => rfl

theorem pieces_eq (held : Held lines) :
    pieces target lines position lexeme = .of (lexeme.pieces target lines position) := by
  unfold pieces Lexeme.pieces
  cases lexeme.kind.tokenType? with
  | none => rfl
  | some type =>
      dsimp only
      split
      · next valid =>
          obtain ⟨startLine, -⟩ := Lexeme.bounds_of_hasValidRange valid
          rw [← mapM_piece_eq held valid, Nat.sub_add_cancel startLine]
      · rfl

theorem piecesOfAll_eq (held : Held lines) (lexemes : List Lexeme) :
    piecesOfAll target lines position lexemes =
      .of (Lexemes.tokensFrom target lines position lexemes) := by
  induction lexemes generalizing position with
  | nil => rfl
  | cons lexeme rest ih =>
      rw [piecesOfAll, Lexemes.tokensFrom]
      refine Run.bind_of (pieces_eq held) fun tokens _ => ?_
      exact Run.bind_of ih fun others _ => rfl

end Lexemes

/-! ## Merging -/

/-- Moves a frontier behind the next token, if that is in order. -/
def accept (frontier : Frontier) (token : Token) : Run Frontier := do
  let next ← Run.of (frontier.accept token)
  let stop ← add token.start token.length
  return { next with reached := some (token.line, stop) }

/-- Compares the heads of two streams. Only tokens on one line are measured. -/
def verdict (primary secondary : Token) : Run Verdict :=
  if primary.line < secondary.line then .ok .primary
  else if secondary.line < primary.line then .ok .secondary
  else if primary.start < secondary.start then do
    let stop ← add primary.start primary.length
    return if secondary.start < stop then .occlude else .primary
  else if secondary.start < primary.start then do
    let stop ← add secondary.start secondary.length
    return if primary.start < stop then .occlude else .secondary
  else if secondary.length = 0 then .ok .secondary
  else if primary.length = 0 then .ok .primary
  else .ok .occlude

/-- Joins two streams from the indices `i` and `j` on. When one has been read, what is left of both
is checked and taken as it is. -/
def mergeAt (primary secondary : List Token) (first second : Frontier) (i j : Nat) : Run Overlay :=
  match _ : primary[i]?, _ : secondary[j]? with
  | some p, some s => do
    match ← verdict p s with
    | .primary => do
      let first ← accept first p
      Overlay.emit p <$> mergeAt primary secondary first second (i + 1) j
    | .secondary => do
      let second ← accept second s
      Overlay.emit s <$> mergeAt primary secondary first second i (j + 1)
    | .occlude => do
      let second ← accept second s
      Overlay.occlude <$> mergeAt primary secondary first second i (j + 1)
  | _, _ => do
    let ps ← tailFrom primary i
    let _ ← ps.foldlM accept first
    let ss ← tailFrom secondary j
    let _ ← ss.foldlM accept second
    return ⟨ps ++ ss, 0⟩
termination_by primary.length - i + (secondary.length - j)
decreasing_by all_goals grind

section Merging

theorem accept_eq {token : Token} (short : token.stop < UInt64.size) (frontier : Frontier) :
    accept frontier token = .of (frontier.accept token) := by
  unfold accept
  rw [add_eq short]
  by_cases admitted : frontier.admits token
  · rw [Frontier.accept_of_admits admitted]
    rfl
  · obtain ⟨line, stop, -, refused⟩ := Frontier.accept_of_not_admits admitted
    rw [refused]
    rfl

theorem foldlM_accept_eq {tokens : List Token} (frontier : Frontier)
    (short : ∀ token ∈ tokens, token.stop < UInt64.size) :
    tokens.foldlM accept frontier = .of (tokens.foldlM Frontier.accept frontier) :=
  Run.foldlM_of (fun token member state => accept_eq (short token member) state) frontier

theorem verdict_eq {primary secondary : Token} (short : primary.stop < UInt64.size)
    (short' : secondary.stop < UInt64.size) :
    verdict primary secondary = .ok (Verdict.of primary secondary) := by
  unfold verdict Verdict.of
  rw [add_eq short, add_eq short']
  simp only [apply_ite Except.ok, Run.ok_bind, Token.stop]
  rfl

/-- A token and what is left behind it are in order if the token is, and then the others. -/
theorem emit_foldlM_accept (frontier : Frontier) (token : Token) (rest : List Token) :
    (do
      let next ← frontier.accept token
      Overlay.emit token <$> (fun _ => ⟨rest, 0⟩) <$> rest.foldlM Frontier.accept next) =
      (fun _ => ⟨token :: rest, 0⟩) <$> (token :: rest).foldlM Frontier.accept frontier := by
  rw [List.foldlM_cons]
  cases frontier.accept token with
  | error fault => rfl
  | ok next =>
      simp only [bind, Except.bind]
      cases rest.foldlM Frontier.accept next <;> rfl

/-- What is left of one stream when the other has been read is checked and taken as it is. -/
theorem mergeFrom_nil_right (first second : Frontier) (tokens : List Token) :
    Overlay.mergeFrom first second tokens [] =
      (fun _ => ⟨tokens, 0⟩) <$> tokens.foldlM Frontier.accept first := by
  induction tokens generalizing first with
  | nil =>
      rw [Overlay.mergeFrom]
      rfl
  | cons token rest ih =>
      rw [Overlay.mergeFrom, ← emit_foldlM_accept]
      simp only [ih]

@[inherit_doc mergeFrom_nil_right]
theorem mergeFrom_nil_left (first second : Frontier) (tokens : List Token) :
    Overlay.mergeFrom first second [] tokens =
      (fun _ => ⟨tokens, 0⟩) <$> tokens.foldlM Frontier.accept second := by
  induction tokens generalizing second with
  | nil =>
      rw [Overlay.mergeFrom]
      rfl
  | cons token rest ih =>
      rw [Overlay.mergeFrom, ← emit_foldlM_accept]
      simp only [ih]

theorem mergeFrom_of_read (first second : Frontier) {ps ss : List Token}
    (read : ps = [] ∨ ss = []) :
    Overlay.mergeFrom first second ps ss = (do
      let _ ← ps.foldlM Frontier.accept first
      let _ ← ss.foldlM Frontier.accept second
      return ⟨ps ++ ss, 0⟩) := by
  obtain rfl | rfl := read
  · rw [mergeFrom_nil_left]
    rfl
  · rw [mergeFrom_nil_right, List.append_nil]
    rfl

theorem drop_of_getElem? {tokens : List Token} {index : Nat} {token : Token}
    (found : tokens[index]? = some token) :
    index < tokens.length ∧ tokens.drop index = token :: tokens.drop (index + 1) := by
  obtain ⟨below, rfl⟩ := List.getElem?_eq_some_iff.mp found
  exact ⟨below, List.drop_eq_getElem_cons below⟩

/-- The walk by two indices is the walk down both lists. -/
theorem mergeAt_eq {primary secondary : List Token}
    (short : ∀ token ∈ primary, token.stop < UInt64.size)
    (short' : ∀ token ∈ secondary, token.stop < UInt64.size) (first second : Frontier) (i j : Nat)
    (inside : i ≤ primary.length) (inside' : j ≤ secondary.length) :
    mergeAt primary secondary first second i j =
      .of (Overlay.mergeFrom first second (primary.drop i) (secondary.drop j)) := by
  -- Along the walk by index: both lists still have a head, or one of them has been read.
  induction first, second, i, j using mergeAt.induct primary secondary with
  | case1 first second i j p s found found' ihPrimary ihSecondary =>
      obtain ⟨below, behind⟩ := drop_of_getElem? found
      obtain ⟨below', behind'⟩ := drop_of_getElem? found'
      have stop := short p (List.mem_of_getElem? found)
      have stop' := short' s (List.mem_of_getElem? found')
      rw [mergeAt]
      split
      · next p' s' again again' =>
          obtain rfl : p = p' := Option.some.inj (found.symm.trans again)
          obtain rfl : s = s' := Option.some.inj (found'.symm.trans again')
          rw [verdict_eq stop stop', Run.ok_bind, behind, behind', Overlay.mergeFrom, ← behind,
            ← behind']
          cases Verdict.of p s with
          | primary =>
              refine Run.bind_of (accept_eq stop first) fun next _ => ?_
              rw [ihPrimary next below inside', Run.map_of]
          | secondary =>
              refine Run.bind_of (accept_eq stop' second) fun next _ => ?_
              rw [ihSecondary next inside below', Run.map_of]
          | occlude =>
              refine Run.bind_of (accept_eq stop' second) fun next _ => ?_
              rw [ihSecondary next inside below', Run.map_of]
      · next read => exact (read p s found found').elim
  | case2 first second i j notBoth =>
      rw [mergeAt]
      split
      · next p s found found' => exact (notBoth p s found found').elim
      · have read : primary.drop i = [] ∨ secondary.drop j = [] := by
          simp only [List.drop_eq_nil_iff, ← List.getElem?_eq_none_iff]
          cases ended : primary[i]? with
          | none => exact .inl rfl
          | some p =>
              exact .inr (Option.eq_none_iff_forall_ne_some.mpr fun s found =>
                notBoth p s ended found)
        rw [mergeFrom_of_read first second read, tailFrom_eq inside, tailFrom_eq inside',
          Run.ok_bind]
        refine Run.bind_of (foldlM_accept_eq first fun token member =>
          short token (List.mem_of_mem_drop member)) fun _ _ => ?_
        exact Run.bind_of (foldlM_accept_eq second fun token member =>
          short' token (List.mem_of_mem_drop member)) fun _ _ => rfl

end Merging

end Machine

end TokenMarkup
