import Mathlib.Data.List.Chain
import TokenMarkup.Proofs.Steps
import TokenMarkup.Token.Order

/-!
# What the order check guarantees

`Frontier.accept` looks at two neighbours at a time. Here its verdict is put as a property of the
whole list: `Frontier.AdmitsAll`, which from a fresh frontier is `InOrder`. As `Token.EndsBefore`
is transitive, a list in order is in order for every pair of its tokens (`inOrder_iff_pairwise`).
-/

namespace TokenMarkup

/-- Whether a token ends before another one starts: on an earlier line, or on the same line where
that one starts or in front of it. -/
def Token.EndsBefore (a b : Token) : Prop :=
  a.line < b.line ∨ a.line = b.line ∧ a.stop ≤ b.start

instance : DecidableRel Token.EndsBefore := fun a b =>
  inferInstanceAs (Decidable (a.line < b.line ∨ a.line = b.line ∧ a.stop ≤ b.start))

theorem Token.EndsBefore.trans {a b c : Token} (ab : a.EndsBefore b) (bc : b.EndsBefore c) :
    a.EndsBefore c := by
  simp only [EndsBefore, stop] at *
  omega

instance : Trans Token.EndsBefore Token.EndsBefore Token.EndsBefore := ⟨Token.EndsBefore.trans⟩

/-- Whether every token starts on a later line than the one in front of it, or on the same line
where that one ended or behind. -/
def InOrder (tokens : List Token) : Prop := tokens.IsChain Token.EndsBefore

instance : DecidablePred InOrder := fun tokens =>
  inferInstanceAs (Decidable (tokens.IsChain Token.EndsBefore))

theorem inOrder_iff_pairwise {tokens : List Token} :
    InOrder tokens ↔ tokens.Pairwise Token.EndsBefore := List.isChain_iff_pairwise

namespace Frontier

theorem admits_advance {frontier : Frontier} {token next : Token} :
    (frontier.advance token).admits next ↔ token.EndsBefore next := by
  simp only [admits, advance, Token.EndsBefore, Bool.or_eq_true, Bool.and_eq_true,
    decide_eq_true_eq, beq_iff_eq]
  omega

theorem accept_of_admits {frontier : Frontier} {token : Token} (admitted : frontier.admits token) :
    frontier.accept token = .ok (frontier.advance token) := by
  rw [accept]
  split
  · rfl
  · rw [if_pos admitted]

/-- A token that is not admitted is reported against the stream that the frontier reads. -/
theorem accept_of_not_admits {frontier : Frontier} {token : Token}
    (refused : ¬ frontier.admits token) :
    ∃ line stop, frontier.reached = some (line, stop) ∧
      frontier.accept token = .error (.orderingViolation frontier.stream frontier.position
        token.line token.start line stop) := by
  rw [accept]
  split
  · next fresh => simp [admits, fresh] at refused
  · next line stop reached => exact ⟨line, stop, reached, by rw [if_neg refused]⟩

/-- Whether a list of tokens may come next, all of it. -/
def AdmitsAll (frontier : Frontier) (tokens : List Token) : Prop :=
  InOrder tokens ∧ ∀ token ∈ tokens.head?, frontier.admits token

theorem admitsAll_nil (frontier : Frontier) : frontier.AdmitsAll [] := by
  simp [AdmitsAll, InOrder]

theorem admitsAll_cons {frontier : Frontier} {token : Token} {rest : List Token} :
    frontier.AdmitsAll (token :: rest) ↔
      frontier.admits token ∧ (frontier.advance token).AdmitsAll rest := by
  simp only [AdmitsAll, InOrder, List.isChain_cons, List.head?_cons, Option.mem_some_iff,
    forall_eq', admits_advance]
  tauto

/-- A fresh frontier admits the lists in order, and no others. -/
theorem admitsAll_fresh {stream : Stream} {tokens : List Token} :
    AdmitsAll { stream } tokens ↔ InOrder tokens := by
  simp [AdmitsAll, admits]

/-- Reading a whole list ends well if and only if the list is admitted. -/
theorem foldlM_accept_eq_ok_iff {frontier : Frontier} {tokens : List Token} :
    (∃ last, tokens.foldlM accept frontier = .ok last) ↔ frontier.AdmitsAll tokens := by
  induction tokens generalizing frontier with
  | nil => exact iff_of_true ⟨frontier, rfl⟩ (admitsAll_nil frontier)
  | cons token rest ih =>
      rw [admitsAll_cons, List.foldlM_cons]
      by_cases admitted : frontier.admits token
      · rw [accept_of_admits admitted, ← ih]
        simp [admitted, bind, Except.bind]
      · obtain ⟨line, stop, -, refused⟩ := accept_of_not_admits admitted
        rw [refused]
        simp [admitted, bind, Except.bind]

theorem foldlM_accept_cons_eq_error_iff {frontier : Frontier} {token : Token} {rest : List Token}
    {fault : Fault} :
    (token :: rest).foldlM accept frontier = .error fault ↔
      frontier.accept token = .error fault ∨
        ∃ next, frontier.accept token = .ok next ∧ rest.foldlM accept next = .error fault := by
  rw [List.foldlM_cons, bind_eq_error_iff]

/-- Reading a list can fail only by an ordering violation of the frontier's own stream. -/
theorem foldlM_accept_eq_error {frontier : Frontier} {tokens : List Token} {fault : Fault}
    (failed : tokens.foldlM accept frontier = .error fault) :
    ∃ position line start previousLine previousEnd, fault =
      .orderingViolation frontier.stream position line start previousLine previousEnd := by
  induction tokens generalizing frontier with
  | nil => cases failed
  | cons token rest ih =>
      rw [foldlM_accept_cons_eq_error_iff] at failed
      by_cases admitted : frontier.admits token
      · simp only [accept_of_admits admitted, reduceCtorEq, Except.ok.injEq, false_or,
          exists_eq_left'] at failed
        exact @ih (frontier.advance token) failed
      · obtain ⟨line, stop, -, refused⟩ := accept_of_not_admits admitted
        simp only [refused, Except.error.injEq, reduceCtorEq, false_and, exists_false,
          or_false] at failed
        exact ⟨_, _, _, _, _, failed.symm⟩

end Frontier

end TokenMarkup
