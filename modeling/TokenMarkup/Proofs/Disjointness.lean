import Mathlib.Algebra.Group.Nat.Defs
import TokenMarkup.Proofs.Disorder
import TokenMarkup.Proofs.Words

/-!
# All pairs from neighbours

An order check is called once for each token. Between two calls it keeps no more than where the last
token ended, and `Machine.check` is such a call on a machine with words: it reads what is kept,
refuses a token that starts in front of that place, and puts the end of any other token there.

This is enough to keep all tokens apart, the empty ones among them, though no token is ever compared
with any but the one in front of it. Main statement: `Machine.checkAll_decides_disjointness`.
-/

namespace TokenMarkup

/-- Whether each token of a list ends before every later one starts, and not only the next. -/
def AllApart (tokens : List Token) : Prop :=
  ∀ (i j : Nat) (a b : Token), i < j → tokens[i]? = some a → tokens[j]? = some b → a.EndsBefore b

/-- Whether token `j + 1` of a list is the first that starts before the one in front of it ends. -/
structure IsFirstBreach (tokens : List Token) (j : Nat) (previous token : Token) : Prop where
  previous_eq : tokens[j]? = some previous
  token_eq : tokens[j + 1]? = some token
  breach : ¬ previous.EndsBefore token
  earlier : ∀ i < j, ∀ a b, tokens[i]? = some a → tokens[i + 1]? = some b → a.EndsBefore b

variable {tokens : List Token} {stream : Stream}

theorem allApart_iff_inOrder : AllApart tokens ↔ InOrder tokens := by
  rw [inOrder_iff_pairwise, List.pairwise_iff_getElem]
  constructor
  · intro apart i j inside inside' less
    exact apart i j _ _ less (List.getElem?_eq_getElem inside) (List.getElem?_eq_getElem inside')
  · intro apart i j a b less found found'
    obtain ⟨inside, rfl⟩ := List.getElem?_eq_some_iff.mp found
    obtain ⟨inside', rfl⟩ := List.getElem?_eq_some_iff.mp found'
    exact apart i j inside inside' less

/-- The start of a list is in order if its neighbours are. -/
theorem inOrder_take_iff {n : Nat} :
    InOrder (tokens.take n) ↔ ∀ i, i + 1 < n → ∀ a b,
      tokens[i]? = some a → tokens[i + 1]? = some b → a.EndsBefore b := by
  simp only [InOrder, List.isChain_iff_getElem, List.getElem_take, List.length_take]
  constructor
  · intro chain i less a b found found'
    obtain ⟨inside, rfl⟩ := List.getElem?_eq_some_iff.mp found
    obtain ⟨inside', rfl⟩ := List.getElem?_eq_some_iff.mp found'
    exact chain i (Nat.lt_min.mpr ⟨less, inside'⟩)
  · intro neighbours i inside
    obtain ⟨less, inside'⟩ := Nat.lt_min.mp inside
    exact neighbours i less _ _ (List.getElem?_eq_getElem (Nat.lt_of_succ_lt inside'))
      (List.getElem?_eq_getElem inside')

theorem getLast?_take_succ {j : Nat} {previous : Token} (found : tokens[j]? = some previous) :
    (tokens.take (j + 1)).getLast? = some previous := by
  rw [List.take_add_one, found]
  simp

/-- A list that is out of order has a first breach. -/
theorem exists_isFirstBreach (disorder : ¬ InOrder tokens) :
    ∃ j previous token, IsFirstBreach tokens j previous token := by
  obtain ⟨fault, failed⟩ := (@Frontier.foldlM_accept_isError_iff tokens .merged).mpr disorder
  rw [Frontier.foldlM_accept_eq_error_iff, firstFault_iff_getElem?] at failed
  obtain ⟨k, token, found, front, previous, last, breach, -⟩ := failed
  cases k with
  | zero => simp at last
  | succ j =>
      have inside : j < tokens.length :=
        Nat.lt_of_succ_lt (List.getElem?_eq_some_iff.mp found).1
      rw [getLast?_take_succ (List.getElem?_eq_getElem inside)] at last
      exact ⟨j, previous, token, (List.getElem?_eq_getElem inside).trans last, found,
        Token.not_endsBefore_iff.mpr breach,
        fun i less => inOrder_take_iff.mp front i (Nat.succ_lt_succ less)⟩

namespace Machine

/-! ## One call -/

/-- Where the last token ended, as the check keeps it between calls. -/
abbrev Memory := Option (Nat × Nat)

/-- One call of the order check, for the token at `position` of a stream. -/
def check (stream : Stream) (position : Nat) (token : Token) : EStateM Halt Memory Unit := do
  if let some (line, stop) := ← get then
    unless line < token.line ∨ token.line = line ∧ stop ≤ token.start do
      throw (.fault (.orderingViolation stream position token.line token.start line stop))
  let stop ← MonadExcept.ofExcept (add token.start token.length)
  set (some (token.line, stop))

/-- All that a call can do: refuse the token, fail to compute its end, or keep that end. -/
theorem run_check_eq (stream : Stream) (position : Nat) (token : Token) (memory : Memory) :
    (check stream position token).run memory =
      match Frontier.accept ⟨stream, position, memory⟩ token with
      | .error fault => .error (.fault fault) memory
      | .ok _ =>
        match add token.start token.length with
        | .error halt => .error halt memory
        | .ok stop => .ok () (some (token.line, stop)) := by
  cases memory with
  | none =>
      unfold check
      cases add token.start token.length <;> rfl
  | some place =>
      obtain ⟨line, stop⟩ := place
      have same : Frontier.admits ⟨stream, position, some (line, stop)⟩ token ↔
          (line < token.line ∨ token.line = line ∧ stop ≤ token.start) := by
        simp [Frontier.admits]
      simp only [Frontier.accept, same]
      unfold check
      -- The test stands under the binder of what is read, so each case first brings it out.
      by_cases admitted : line < token.line ∨ token.line = line ∧ stop ≤ token.start
      · rw [if_pos admitted]
        change (if _ then _ else _ : EStateM Halt Memory Unit) _ = _
        rw [if_pos admitted]
        cases add token.start token.length <;> rfl
      · rw [if_neg admitted]
        change (if _ then _ else _ : EStateM Halt Memory Unit) _ = _
        rw [if_neg admitted]
        rfl

/-- A call that does not end well leaves what is kept as it was. -/
theorem memory_of_check_eq_error {position : Nat} {token : Token} {memory after : Memory}
    {halt : Halt} (refused : (check stream position token).run memory = .error halt after) :
    after = memory := by
  rw [run_check_eq] at refused
  split at refused
  · cases refused
    rfl
  · split at refused
    · cases refused
      rfl
    · cases refused

theorem run_check {token : Token} (short : token.stop < UInt64.size) (frontier : Frontier) :
    (check frontier.stream frontier.position token).run frontier.reached =
      match frontier.accept token with
      | .error fault => .error (.fault fault) frontier.reached
      | .ok next => .ok () next.reached := by
  rw [run_check_eq, add_eq short]
  cases run : frontier.accept token with
  | error fault => rfl
  | ok next =>
      rw [(Frontier.accept_eq_ok_iff.mp run).2]
      rfl

/-! ## A call for each token -/

/-- Calls the order check for one token after the other, up to the first that is refused. -/
def checkAll (stream : Stream) (position : Nat) : List Token → EStateM Halt Memory Unit
  | [] => pure ()
  | token :: rest => do
    check stream position token
    checkAll stream (position + 1) rest

theorem run_checkAll_cons (position : Nat) (token : Token) (rest : List Token) (memory : Memory) :
    (checkAll stream position (token :: rest)).run memory =
      match (check stream position token).run memory with
      | .ok _ after => (checkAll stream (position + 1) rest).run after
      | .error halt after => .error halt after := by
  simp only [checkAll, EStateM.run, bind, EStateM.bind]
  cases check stream position token memory <;> rfl

/-- Behind tokens in order the check goes on from where the last of them ended. -/
theorem run_checkAll_append {before : List Token} (rest : List Token) {frontier : Frontier}
    (admits : frontier.AdmitsAll before) (short : ∀ token ∈ before, token.stop < UInt64.size) :
    (checkAll frontier.stream frontier.position (before ++ rest)).run frontier.reached =
      (checkAll frontier.stream (frontier.position + before.length) rest).run
        (before.foldl Frontier.advance frontier).reached := by
  induction before generalizing frontier with
  | nil => rfl
  | cons token before ih =>
      obtain ⟨admitted, behind⟩ := Frontier.admitsAll_cons.mp admits
      obtain ⟨here, later⟩ := List.forall_mem_cons.mp short
      have step := run_check here frontier
      rw [Frontier.accept_of_admits admitted] at step
      rw [List.cons_append, run_checkAll_cons, step, List.length_cons,
        Nat.add_comm before.length, ← Nat.add_assoc]
      exact ih behind later

theorem run_checkAll_of_inOrder (order : InOrder tokens)
    (short : ∀ token ∈ tokens, token.stop < UInt64.size) :
    (checkAll stream 0 tokens).run none =
      .ok () (tokens.foldl Frontier.advance { stream }).reached := by
  have run := run_checkAll_append [] ((@Frontier.admitsAll_fresh stream tokens).mpr order) short
  rwa [List.append_nil] at run

theorem reached_foldl_advance {frontier : Frontier} {last : Token}
    (found : tokens.getLast? = some last) :
    (tokens.foldl Frontier.advance frontier).reached = some (last.line, last.stop) := by
  obtain ⟨before, rfl⟩ := List.getLast?_eq_some_iff.mp found
  rw [List.foldl_append]
  rfl

/-- At the first breach the check stops, and keeps what it kept before. -/
theorem run_checkAll_of_isFirstBreach {j : Nat} {previous token : Token}
    (first : IsFirstBreach tokens j previous token)
    (short : ∀ token ∈ tokens, token.stop < UInt64.size) :
    (checkAll stream 0 (tokens.take (j + 1))).run none =
        .ok () (some (previous.line, previous.stop)) ∧
      (checkAll stream 0 tokens).run none =
        .error (.fault (.orderingViolation stream (j + 1) token.line token.start previous.line
          previous.stop)) (some (previous.line, previous.stop)) := by
  have order : InOrder (tokens.take (j + 1)) :=
    inOrder_take_iff.mpr fun i less => first.earlier i (Nat.lt_of_succ_lt_succ less)
  have shortFront : ∀ token ∈ tokens.take (j + 1), token.stop < UInt64.size :=
    fun token member => short token (List.mem_of_mem_take member)
  have found := getLast?_take_succ first.previous_eq
  have last := @reached_foldl_advance _ { stream } _ found
  refine ⟨by rw [run_checkAll_of_inOrder order shortFront, last], ?_⟩
  obtain ⟨inside, same⟩ := List.getElem?_eq_some_iff.mp first.token_eq
  have length : (tokens.take (j + 1)).length = j + 1 :=
    List.length_take_of_le (Nat.le_of_lt inside)
  have refused := Frontier.accept_foldl_advance_eq_error_iff.mpr
    (⟨previous, found, Token.not_endsBefore_iff.mp first.breach, rfl⟩ :
      token.Intrudes stream (tokens.take (j + 1)) _)
  have step := run_check (short token (List.mem_of_getElem? first.token_eq))
    ((tokens.take (j + 1)).foldl Frontier.advance { stream })
  rw [refused, Frontier.stream_foldl_advance, Frontier.position_foldl_advance] at step
  have run := run_checkAll_append (token :: tokens.drop (j + 2))
    ((@Frontier.admitsAll_fresh stream _).mpr order) shortFront
  rw [run_checkAll_cons, step, last, length, ← same, List.getElem_cons_drop,
    List.take_append_drop] at run
  rwa [same] at run

/-- Called for one token after the other, the check accepts them all if and only if each of them
ends before every later one starts. Otherwise it stops at the first that starts before the one in
front of it ends, and a call that is refused changes nothing: the check still keeps where that one
ended. The ends are words, so no call traps, and each is a step of `Frontier.accept`. -/
theorem checkAll_decides_disjointness (stream : Stream) (tokens : List Token)
    (short : ∀ token ∈ tokens, token.start + token.length < 2 ^ 64) :
    ((∃ memory, (checkAll stream 0 tokens).run none = .ok () memory) ↔ AllApart tokens) ∧
    (¬ AllApart tokens → ∃ j previous token, IsFirstBreach tokens j previous token ∧
      (checkAll stream 0 (tokens.take (j + 1))).run none =
        .ok () (some (previous.line, previous.stop)) ∧
      (checkAll stream 0 tokens).run none =
        .error (.fault (.orderingViolation stream (j + 1) token.line token.start previous.line
          previous.stop)) (some (previous.line, previous.stop))) ∧
    (∀ position token memory after halt,
      (check stream position token).run memory = .error halt after → after = memory) ∧
    ∀ token ∈ tokens, ∀ frontier : Frontier,
      (check frontier.stream frontier.position token).run frontier.reached =
        match frontier.accept token with
        | .error fault => .error (.fault fault) frontier.reached
        | .ok next => .ok () next.reached := by
  rw [allApart_iff_inOrder]
  refine ⟨⟨?_, fun order => ⟨_, run_checkAll_of_inOrder order short⟩⟩, ?_, ?_, ?_⟩
  · rintro ⟨memory, accepted⟩
    by_contra disorder
    obtain ⟨j, previous, token, first⟩ := exists_isFirstBreach disorder
    rw [(run_checkAll_of_isFirstBreach first short).2] at accepted
    cases accepted
  · intro disorder
    obtain ⟨j, previous, token, first⟩ := exists_isFirstBreach disorder
    exact ⟨j, previous, token, first, run_checkAll_of_isFirstBreach first short⟩
  · exact fun _ _ _ _ _ => memory_of_check_eq_error
  · exact fun token member => run_check (short token member)

/-- Two marks at one place, a token on either side of them and one further down. -/
def marked : List Token :=
  [⟨0, 0, 3, "type", .empty⟩, ⟨0, 3, 0, "label", .empty⟩, ⟨0, 3, 0, "label", .empty⟩,
    ⟨0, 3, 2, "type", .empty⟩, ⟨2, 0, 1, "type", .empty⟩]

/-- The marks are in nobody's way. A token on the line in between comes too late and is refused, and
what the check keeps is still the end of the last one. -/
theorem checkAll_decides_disjointness_marked :
    AllApart marked ∧ ¬ AllApart (marked ++ [⟨1, 0, 1, "type", .empty⟩]) ∧
      (checkAll .merged 0 (marked ++ [⟨1, 0, 1, "type", .empty⟩])).run none =
        .error (.fault (.orderingViolation .merged 5 1 0 2 1)) (some (2, 1)) := by
  refine ⟨?_, ?_, rfl⟩
  · exact (checkAll_decides_disjointness .merged marked (by decide)).1.mp ⟨_, rfl⟩
  · intro apart
    obtain ⟨memory, accepted⟩ := (checkAll_decides_disjointness .merged
      (marked ++ [⟨1, 0, 1, "type", .empty⟩]) (by decide)).1.mpr apart
    cases accepted

end Machine

end TokenMarkup
