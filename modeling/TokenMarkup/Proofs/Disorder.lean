import TokenMarkup.Proofs.Overlay

/-!
# What is reported of a list that is out of order

`Frontier.accept` remembers where the last token ended. Along a whole list it fails at the first
token that starts before the one in front of it ends (`Frontier.foldlM_accept_eq_error_iff`).

A merge reads two lists at once. It takes its next token from one or the other by comparing heads
that have not been checked, and looks at the order of a token only when it is taken. No disorder is
missed for that and none is invented: `Overlay.merge_reports_disorder`.
-/

namespace TokenMarkup

/-- What is reported of a token of a stream that starts before the last one in front of it ends. -/
def Token.Intrudes (stream : Stream) (before : List Token) (token : Token) (fault : Fault) : Prop :=
  ∃ previous, before.getLast? = some previous ∧
    (token.line < previous.line ∨ token.line = previous.line ∧ token.start < previous.stop) ∧
    fault = .orderingViolation stream before.length token.line token.start previous.line
      previous.stop

theorem Token.not_endsBefore_iff {a b : Token} :
    ¬ a.EndsBefore b ↔ b.line < a.line ∨ b.line = a.line ∧ b.start < a.stop := by
  unfold EndsBefore
  omega

namespace Frontier

variable {frontier : Frontier} {tokens : List Token} {token : Token} {stream : Stream}
  {fault : Fault}

theorem stream_foldl_advance : (tokens.foldl advance frontier).stream = frontier.stream := by
  induction tokens generalizing frontier with
  | nil => rfl
  | cons token rest ih => exact ih

theorem position_foldl_advance :
    (tokens.foldl advance frontier).position = frontier.position + tokens.length := by
  induction tokens generalizing frontier with
  | nil => rfl
  | cons token rest ih =>
      rw [List.foldl_cons, ih, List.length_cons, Nat.add_comm rest.length, ← Nat.add_assoc]
      rfl

theorem accept_eq_ok_iff {next : Frontier} :
    frontier.accept token = .ok next ↔ frontier.admits token ∧ next = frontier.advance token := by
  by_cases admitted : frontier.admits token
  · rw [accept_of_admits admitted, Except.ok.injEq]
    simp only [admitted, true_and, eq_comm]
  · obtain ⟨line, stop, -, refused⟩ := accept_of_not_admits admitted
    rw [refused]
    exact iff_of_false nofun fun accepted => admitted accepted.1

theorem foldlM_accept_of_admitsAll (admits : frontier.AdmitsAll tokens) :
    tokens.foldlM accept frontier = .ok (tokens.foldl advance frontier) := by
  induction tokens generalizing frontier with
  | nil => rfl
  | cons token rest ih =>
      obtain ⟨admitted, behind⟩ := admitsAll_cons.mp admits
      rw [List.foldlM_cons, accept_of_admits admitted]
      exact ih behind

/-- Behind a token only another one that starts before its end is refused. -/
theorem accept_advance_eq_error_iff {last : Token} :
    (frontier.advance last).accept token = .error fault ↔
      ¬ last.EndsBefore token ∧ fault = .orderingViolation frontier.stream (frontier.position + 1)
        token.line token.start last.line last.stop := by
  rw [← @admits_advance frontier]
  unfold accept
  change (if (frontier.advance last).admits token then _ else _) = _ ↔ _
  split
  · next admitted => simp [admitted]
  · next refused =>
      rw [Except.error.injEq, and_iff_right refused, eq_comm]
      rfl

theorem admits_foldl_advance_iff :
    (tokens.foldl advance { stream }).admits token ↔
      ∀ previous ∈ tokens.getLast?, previous.EndsBefore token := by
  rcases List.eq_nil_or_concat tokens with rfl | ⟨before, last, rfl⟩
  · simp [admits]
  · simp [admits_advance]

/-- Behind a list that was read from its start a token is refused if it intrudes on the last one. -/
theorem accept_foldl_advance_eq_error_iff :
    (tokens.foldl advance { stream }).accept token = .error fault ↔
      token.Intrudes stream tokens fault := by
  unfold Token.Intrudes
  rcases List.eq_nil_or_concat tokens with rfl | ⟨before, last, rfl⟩
  · exact iff_of_false nofun (by simp)
  · rw [List.concat_eq_append, List.foldl_append, List.foldl_cons, List.foldl_nil,
      accept_advance_eq_error_iff, stream_foldl_advance, position_foldl_advance,
      Token.not_endsBefore_iff]
    simp

theorem foldlM_accept_concat (before : List Token) (token : Token) :
    (before ++ [token]).foldlM accept { stream } = (do
      let last ← before.foldlM accept { stream }
      (fun _ next => next) last <$> (before.foldl advance { stream }).accept token) := by
  rw [List.foldlM_append]
  cases run : before.foldlM accept { stream } with
  | error fault => rfl
  | ok last =>
      have read := foldlM_accept_of_admitsAll (foldlM_accept_eq_ok_iff.mp ⟨last, run⟩)
      rw [run, Except.ok.injEq] at read
      subst read
      simp only [List.foldlM_cons, List.foldlM_nil, bind, Except.bind]
      cases (before.foldl advance { stream }).accept token <;> rfl

/-- Reading a list fails at the first token that intrudes on the one in front of it. -/
theorem foldlM_accept_eq_error_iff :
    tokens.foldlM accept { stream } = .error fault ↔
      FirstFault InOrder (Token.Intrudes stream) tokens fault := by
  rw [eq_error_iff_firstFault (fun tokens => tokens.foldlM accept { stream }) ⟨_, rfl⟩
    foldlM_accept_concat]
  simp only [foldlM_accept_eq_ok_iff, admitsAll_fresh, accept_foldl_advance_eq_error_iff]

theorem foldlM_accept_isError_iff :
    (∃ fault, tokens.foldlM accept { stream } = .error fault) ↔ ¬ InOrder tokens := by
  rw [← @admitsAll_fresh stream, ← foldlM_accept_eq_ok_iff]
  cases tokens.foldlM accept { stream } <;> simp

end Frontier

namespace Overlay

variable {primary secondary : List Token} {fault : Fault}

theorem merge_isError_iff :
    (∃ fault, merge primary secondary = .error fault) ↔
      ¬ InOrder primary ∨ ¬ InOrder secondary := by
  rw [← not_and_or, ← merge_isOk_iff]
  cases merge primary secondary <;> simp

/-- A merge that fails whenever one stream does, and with no other fault than that stream has on its
own, has that fault. -/
theorem merge_eq_error_iff_of_only {stream : Stream} {tokens : List Token}
    (fails : ¬ InOrder tokens → ∃ fault, merge primary secondary = .error fault)
    (only : ∀ fault, merge primary secondary = .error fault →
      tokens.foldlM Frontier.accept { stream } = .error fault) :
    merge primary secondary = .error fault ↔
      FirstFault InOrder (Token.Intrudes stream) tokens fault := by
  rw [← Frontier.foldlM_accept_eq_error_iff]
  refine ⟨only fault, fun failed => ?_⟩
  obtain ⟨other, refused⟩ := fails (Frontier.foldlM_accept_isError_iff.mp ⟨fault, failed⟩)
  have same := only other refused
  rw [failed, Except.error.injEq] at same
  rw [refused, same]

theorem merge_eq_error_iff_primary (order : InOrder secondary) :
    merge primary secondary = .error fault ↔
      FirstFault InOrder (Token.Intrudes .semantic) primary fault := by
  refine merge_eq_error_iff_of_only (fun disorder => merge_isError_iff.mpr (.inl disorder)) ?_
  intro fault failed
  rcases mergeFrom_eq_error failed with first | second
  · exact first
  · exact absurd order (Frontier.foldlM_accept_isError_iff.mp ⟨fault, second⟩)

theorem merge_eq_error_iff_secondary (order : InOrder primary) :
    merge primary secondary = .error fault ↔
      FirstFault InOrder (Token.Intrudes .lexical) secondary fault := by
  refine merge_eq_error_iff_of_only (fun disorder => merge_isError_iff.mpr (.inr disorder)) ?_
  intro fault failed
  rcases mergeFrom_eq_error failed with first | second
  · exact absurd order (Frontier.foldlM_accept_isError_iff.mp ⟨fault, first⟩)
  · exact second

/-- A merge fails if and only if one of its streams is out of order. It reports the first token of
such a stream that intrudes on the one in front of it, whatever the other stream is like: where that
one is in order, it might as well be empty. -/
theorem merge_reports_disorder (primary secondary : List Token) :
    ((∃ fault, merge primary secondary = .error fault) ↔
      ¬ InOrder primary ∨ ¬ InOrder secondary) ∧
    (∀ fault, merge primary secondary = .error fault →
      FirstFault InOrder (Token.Intrudes .semantic) primary fault ∨
        FirstFault InOrder (Token.Intrudes .lexical) secondary fault) ∧
    (InOrder secondary → ∀ fault,
      merge primary secondary = .error fault ↔ merge primary [] = .error fault) ∧
    (InOrder primary → ∀ fault,
      merge primary secondary = .error fault ↔ merge [] secondary = .error fault) := by
  have nothing : InOrder [] := List.isChain_nil
  refine ⟨merge_isError_iff, ?_, ?_, ?_⟩
  · intro fault failed
    exact (mergeFrom_eq_error failed).imp Frontier.foldlM_accept_eq_error_iff.mp
      Frontier.foldlM_accept_eq_error_iff.mp
  · intro order fault
    rw [merge_eq_error_iff_primary order, merge_eq_error_iff_primary nothing]
  · intro order fault
    rw [merge_eq_error_iff_secondary order, merge_eq_error_iff_secondary nothing]

end Overlay

end TokenMarkup
