import Mathlib.Data.Prod.Lex
import TokenMarkup.Overlay
import TokenMarkup.Proofs.TokenOrder

/-!
# The overlay is a sort of what does not conflict

`Overlay.merge` decides by looking at two heads. What it does to the streams as a whole takes two
words: `Token.Conflicts`, that two tokens share a stretch of a line, and `Token.place`, by which
tokens are sorted.

* `endsBefore_iff`: one token ends before another if and only if its place is no later and the two
  do not conflict; so sorted and without conflict is the same as in order.
* `mergeFrom_eq_ok`: what is left of two streams in order is joined to the stable sort of the
  unconflicted secondary tokens and all primary ones.
* `mergeFrom_eq_error`: a fault is the fault of one of the two streams, read on its own.
-/

namespace TokenMarkup

namespace Token

/-- Whether two tokens share a stretch of a line, or one of them marks a place inside the other. -/
def Conflicts (a b : Token) : Prop :=
  a.line = b.line ∧ a.start < b.stop ∧ b.start < a.stop

instance : DecidableRel Conflicts := fun a b =>
  inferInstanceAs (Decidable (a.line = b.line ∧ a.start < b.stop ∧ b.start < a.stop))

theorem Conflicts.symm {a b : Token} (conflict : a.Conflicts b) : b.Conflicts a :=
  ⟨conflict.1.symm, conflict.2.2, conflict.2.1⟩

/-- What tokens are sorted by: the line, the start, and whether they are more than a mark. -/
def place (token : Token) : Nat ×ₗ Nat ×ₗ Nat :=
  toLex (token.line, toLex (token.start, if token.length = 0 then 0 else 1))

/-- Whether a token may stand in front of another one in a sorted list. -/
def placeLe (a b : Token) : Bool := a.place ≤ b.place

theorem place_le_place_iff {a b : Token} :
    a.place ≤ b.place ↔ a.line < b.line ∨ a.line = b.line ∧
      (a.start < b.start ∨ a.start = b.start ∧ (a.length = 0 ∨ b.length ≠ 0)) := by
  simp only [place, Prod.Lex.toLex_le_toLex]
  split <;> split <;> simp_all

theorem placeLe_trans (a b c : Token) (ab : a.placeLe b) (bc : b.placeLe c) : a.placeLe c := by
  simp only [placeLe, decide_eq_true_eq] at *
  exact ab.trans bc

theorem placeLe_total (a b : Token) : a.placeLe b || b.placeLe a := by
  simp only [placeLe, Bool.or_eq_true, decide_eq_true_eq]
  exact le_total a.place b.place

theorem endsBefore_iff {a b : Token} : a.EndsBefore b ↔ a.place ≤ b.place ∧ ¬ a.Conflicts b := by
  simp only [EndsBefore, place_le_place_iff, Conflicts, stop]
  omega

end Token

/-- A list is in order if and only if it is sorted and no two of its tokens conflict. -/
theorem inOrder_iff_sorted {tokens : List Token} :
    InOrder tokens ↔ tokens.Pairwise (Token.placeLe · ·) ∧
      tokens.Pairwise (¬ Token.Conflicts · ·) := by
  rw [inOrder_iff_pairwise, ← List.pairwise_and_iff]
  apply List.Pairwise.iff
  intro a b
  rw [Token.endsBefore_iff, Token.placeLe, decide_eq_true_eq]

/-! ## Verdicts -/

namespace Verdict

theorem primary_spec {p s : Token} (verdict : Verdict.of p s = .primary) :
    p.EndsBefore s ∧ ¬ s.placeLe p := by
  simp only [Token.EndsBefore, Token.placeLe, decide_eq_true_eq, Token.place_le_place_iff]
  grind [Verdict.of, Token.stop]

theorem secondary_spec {p s : Token} (verdict : Verdict.of p s = .secondary) : s.EndsBefore p := by
  grind [Verdict.of, Token.stop, Token.EndsBefore]

theorem occlude_spec {p s : Token} (verdict : Verdict.of p s = .occlude) : p.Conflicts s := by
  grind [Verdict.of, Token.stop, Token.Conflicts]

theorem primary_forall {p s : Token} {ss : List Token} (verdict : Verdict.of p s = .primary)
    (order : InOrder (s :: ss)) : ∀ t ∈ s :: ss, p.EndsBefore t ∧ ¬ t.placeLe p := by
  obtain ⟨before, strict⟩ := primary_spec verdict
  intro t member
  rcases List.mem_cons.mp member with rfl | inRest
  · exact ⟨before, strict⟩
  · have later := List.rel_of_pairwise_cons (inOrder_iff_pairwise.mp order) inRest
    have sorted := List.rel_of_pairwise_cons (inOrder_iff_sorted.mp order).1 inRest
    exact ⟨before.trans later, fun le => strict (Token.placeLe_trans s t p sorted le)⟩

theorem secondary_forall {p s : Token} {ps : List Token} (verdict : Verdict.of p s = .secondary)
    (order : InOrder (p :: ps)) : ∀ q ∈ p :: ps, s.EndsBefore q := by
  have before := secondary_spec verdict
  intro q member
  rcases List.mem_cons.mp member with rfl | inRest
  · exact before
  · exact before.trans (List.rel_of_pairwise_cons (inOrder_iff_pairwise.mp order) inRest)

end Verdict

/-! ## Stable sorting -/

section StableSort

variable {α : Type} {le : α → α → Bool}

/-- A list has one cut at most with `p` false in front of it and true behind. -/
theorem append_inj_of_cut {p : α → Bool} {a b c d : List α} (same : a ++ b = c ++ d)
    (before : ∀ x ∈ a, p x = false) (after : ∀ x ∈ b, p x)
    (before' : ∀ x ∈ c, p x = false) (after' : ∀ x ∈ d, p x) : a = c ∧ b = d := by
  have back : b = d := by
    have filtered := congrArg (List.filter p) same
    rw [List.filter_append, List.filter_append, List.filter_eq_self.mpr after,
      List.filter_eq_self.mpr after', List.filter_eq_nil_iff.mpr (by simpa using before),
      List.filter_eq_nil_iff.mpr (by simpa using before')] at filtered
    simpa using filtered
  subst back
  exact ⟨List.append_cancel_right same, rfl⟩

variable (trans : ∀ a b c, le a b → le b c → le a c) (total : ∀ a b, le a b || le b a)

include trans total

/-- Sorting puts an element behind those that may not stand behind it, and in front of the rest. -/
theorem mergeSort_cons_eq (a : α) (rest : List α) :
    ∃ smaller larger, (a :: rest).mergeSort le = smaller ++ a :: larger ∧
      rest.mergeSort le = smaller ++ larger ∧
      (∀ b ∈ smaller, le a b = false) ∧ ∀ b ∈ larger, le a b := by
  obtain ⟨smaller, larger, sorted, sortedRest, strict⟩ := List.mergeSort_cons trans total a rest
  have pairwise := List.pairwise_mergeSort trans total (a :: rest)
  rw [sorted, List.pairwise_append, List.pairwise_cons] at pairwise
  exact ⟨smaller, larger, sorted, sortedRest, by simpa using strict, pairwise.2.1.1⟩

/-- The element that comes first when sorted: those in front of it may not stand in front, and those
behind it may stand behind. -/
theorem mergeSort_append_cons {a : α} {before after : List α} (first : ∀ b ∈ before, ¬ le b a)
    (least : ∀ b ∈ after, le a b) :
    (before ++ a :: after).mergeSort le = a :: (before ++ after).mergeSort le := by
  induction before with
  | nil =>
      obtain ⟨smaller, larger, sorted, sortedRest, strict, -⟩ :=
        mergeSort_cons_eq trans total a after
      have none_smaller : smaller = [] := by
        rw [List.eq_nil_iff_forall_not_mem]
        intro b member
        have inAfter : b ∈ after.mergeSort le := by simp [sortedRest, member]
        simpa [strict b member] using least b (List.mem_mergeSort.mp inAfter)
      simp [sorted, sortedRest, none_smaller]
  | cons c before ih =>
      rw [List.forall_mem_cons] at first
      obtain ⟨smaller, larger, sorted, sortedRest, strict, weak⟩ :=
        mergeSort_cons_eq trans total c (before ++ a :: after)
      obtain ⟨smaller', larger', sorted', sortedRest', strict', weak'⟩ :=
        mergeSort_cons_eq trans total c (before ++ after)
      rw [ih first.2, sortedRest'] at sortedRest
      rw [List.cons_append, List.cons_append, sorted, sorted']
      -- As `a` comes first without `c`, it is among those that `c` goes behind.
      cases smaller with
      | nil =>
          rw [List.nil_append] at sortedRest
          exact absurd (weak a (by simp [← sortedRest])) first.1
      | cons d smaller =>
          obtain ⟨rfl, rest⟩ := List.cons.inj sortedRest
          obtain ⟨rfl, rfl⟩ := append_inj_of_cut rest strict' weak'
            (fun b member => strict b (List.mem_cons_of_mem _ member)) weak
          rfl

end StableSort

/-! ## The overlay -/

namespace Overlay

/-- The secondary tokens that conflict with no primary one, wherever that stands. -/
def clear (primary secondary : List Token) : List Token :=
  secondary.filter fun token => ∀ p ∈ primary, ¬ p.Conflicts token

/-- Primary and unconflicted secondary tokens, sorted. Of two with the same place the secondary one
stays in front, as does the earlier one of a stream. -/
def arranged (primary secondary : List Token) : List Token :=
  (clear primary secondary ++ primary).mergeSort Token.placeLe

theorem clear_congr {primary primary' secondary : List Token}
    (same : ∀ token ∈ secondary, (∀ p ∈ primary, ¬ p.Conflicts token) ↔
      ∀ p ∈ primary', ¬ p.Conflicts token) :
    clear primary secondary = clear primary' secondary := by
  apply List.filter_congr
  intro token member
  simpa using same token member

theorem mem_clear {primary secondary : List Token} {token : Token} :
    token ∈ clear primary secondary ↔
      token ∈ secondary ∧ ∀ p ∈ primary, ¬ p.Conflicts token := by
  simp [clear]

theorem mem_arranged {primary secondary : List Token} {token : Token} :
    token ∈ arranged primary secondary ↔ token ∈ clear primary secondary ∨ token ∈ primary := by
  rw [arranged, List.mem_mergeSort, List.mem_append]

theorem count_clear (primary secondary : List Token) (token : Token) :
    (clear primary secondary).count token =
      if ∃ p ∈ primary, p.Conflicts token then 0 else secondary.count token := by
  split
  · next conflict =>
      obtain ⟨p, member, conflict⟩ := conflict
      rw [List.count_eq_zero]
      exact fun kept => (mem_clear.mp kept).2 p member conflict
  · next apart =>
      apply List.count_filter
      simpa using apart

/-- A primary token that comes before all secondary ones comes first, and has no say in what is
left of the secondary stream. -/
theorem arranged_cons_primary {p : Token} {ps ss : List Token} (order : InOrder (p :: ps))
    (before : ∀ s ∈ ss, p.EndsBefore s ∧ ¬ s.placeLe p) :
    arranged (p :: ps) ss = p :: arranged ps ss ∧ clear (p :: ps) ss = clear ps ss := by
  have same : clear (p :: ps) ss = clear ps ss := by
    apply clear_congr
    intro s member
    have apart := (Token.endsBefore_iff.mp (before s member).1).2
    simp [apart]
  refine ⟨?_, same⟩
  rw [arranged, same]
  apply mergeSort_append_cons Token.placeLe_trans Token.placeLe_total
  · intro s member
    exact (before s (mem_clear.mp member).1).2
  · intro q member
    exact List.rel_of_pairwise_cons (inOrder_iff_sorted.mp order).1 member

/-- A secondary token that ends before all primary ones comes first. -/
theorem arranged_cons_secondary {s : Token} {ps ss : List Token} (order : InOrder (s :: ss))
    (before : ∀ p ∈ ps, s.EndsBefore p) :
    arranged ps (s :: ss) = s :: arranged ps ss ∧ clear ps (s :: ss) = s :: clear ps ss := by
  have kept : clear ps (s :: ss) = s :: clear ps ss := by
    apply List.filter_cons_of_pos
    rw [decide_eq_true_eq]
    intro p member conflict
    exact (Token.endsBefore_iff.mp (before p member)).2 conflict.symm
  refine ⟨?_, kept⟩
  rw [arranged, kept, List.cons_append]
  have first := @mergeSort_append_cons _ _ Token.placeLe_trans Token.placeLe_total s []
    (clear ps ss ++ ps) (by simp)
  apply first
  intro token member
  rw [List.mem_append, mem_clear] at member
  have later : s.EndsBefore token := by
    rcases member with ⟨inSecondary, -⟩ | inPrimary
    · exact List.rel_of_pairwise_cons (inOrder_iff_pairwise.mp order) inSecondary
    · exact before token inPrimary
  simpa [Token.placeLe] using (Token.endsBefore_iff.mp later).1

theorem clear_cons_of_conflicts {p s : Token} {ps ss : List Token} (conflict : p.Conflicts s) :
    clear (p :: ps) (s :: ss) = clear (p :: ps) ss := by
  apply List.filter_cons_of_neg
  simp [conflict]

theorem accept_then {frontier : Frontier} {token : Token} {effect : Overlay → Overlay}
    {rest : Frontier → Except Fault Overlay} {overlay : Overlay}
    (admitted : frontier.admits token) (run : rest (frontier.advance token) = .ok overlay) :
    (do
      let next ← frontier.accept token
      effect <$> rest next) = .ok (effect overlay) := by
  have taken := Frontier.accept_of_admits admitted
  exact bind_eq_ok_iff.mpr ⟨_, taken, map_eq_ok_iff.mpr ⟨overlay, run, rfl⟩⟩

/-- What is left of two streams is joined to the sort of what does not conflict. -/
theorem mergeFrom_eq_ok (first second : Frontier) (ps ss : List Token)
    (firstAdmits : first.AdmitsAll ps) (secondAdmits : second.AdmitsAll ss) :
    ∃ overlay, mergeFrom first second ps ss = .ok overlay ∧ overlay.tokens = arranged ps ss ∧
      overlay.occluded + (clear ps ss).length = ss.length := by
  -- Along the walk: each of its six cases takes the head that is first in the sorted rest, or
  -- leaves out one that is not in it.
  fun_induction mergeFrom first second ps ss with
  | case1 => exact ⟨_, rfl, by simp [arranged, clear], by simp [clear]⟩
  | case2 first second p ps ih =>
      obtain ⟨admitted, rest⟩ := Frontier.admitsAll_cons.mp firstAdmits
      obtain ⟨overlay, run, tokens, count⟩ := ih _ rest secondAdmits
      have next : arranged (p :: ps) [] = p :: arranged ps [] :=
        (arranged_cons_primary firstAdmits.1 (by simp)).1
      exact ⟨emit p overlay, accept_then admitted run, by rw [next, ← tokens]; rfl, count⟩
  | case3 first second s ss ih =>
      obtain ⟨admitted, rest⟩ := Frontier.admitsAll_cons.mp secondAdmits
      obtain ⟨overlay, run, tokens, count⟩ := ih _ firstAdmits rest
      obtain ⟨next, kept⟩ := @arranged_cons_secondary s [] ss secondAdmits.1 (by simp)
      refine ⟨emit s overlay, accept_then admitted run, by rw [next, ← tokens]; rfl, ?_⟩
      rw [kept, List.length_cons, List.length_cons, ← count]
      rfl
  | case4 first second p ps s ss verdict ih =>
      obtain ⟨admitted, rest⟩ := Frontier.admitsAll_cons.mp firstAdmits
      obtain ⟨overlay, run, tokens, count⟩ := ih _ rest secondAdmits
      obtain ⟨next, same⟩ := arranged_cons_primary firstAdmits.1
        (Verdict.primary_forall verdict secondAdmits.1)
      refine ⟨emit p overlay, accept_then admitted run, by rw [next, ← tokens]; rfl, ?_⟩
      rw [same]
      exact count
  | case5 first second p ps s ss verdict ih =>
      obtain ⟨admitted, rest⟩ := Frontier.admitsAll_cons.mp secondAdmits
      obtain ⟨overlay, run, tokens, count⟩ := ih _ firstAdmits rest
      obtain ⟨next, kept⟩ := arranged_cons_secondary secondAdmits.1
        (Verdict.secondary_forall verdict firstAdmits.1)
      refine ⟨emit s overlay, accept_then admitted run, by rw [next, ← tokens]; rfl, ?_⟩
      rw [kept, List.length_cons, List.length_cons, ← count]
      rfl
  | case6 first second p ps s ss verdict ih =>
      obtain ⟨admitted, rest⟩ := Frontier.admitsAll_cons.mp secondAdmits
      obtain ⟨overlay, run, tokens, count⟩ := ih _ firstAdmits rest
      have dropped : clear (p :: ps) (s :: ss) = clear (p :: ps) ss :=
        clear_cons_of_conflicts (Verdict.occlude_spec verdict)
      refine ⟨occlude overlay, accept_then admitted run, ?_, ?_⟩
      · rw [arranged, dropped]
        exact tokens
      · rw [dropped, List.length_cons, ← count]
        exact Nat.add_right_comm overlay.occluded 1 _

theorem accept_then_eq_error {frontier : Frontier} {token : Token} {effect : Overlay → Overlay}
    {rest : Frontier → Except Fault Overlay} {fault : Fault}
    (failed : (do
      let next ← frontier.accept token
      effect <$> rest next) = .error fault) :
    frontier.accept token = .error fault ∨
      ∃ next, frontier.accept token = .ok next ∧ rest next = .error fault := by
  rcases bind_eq_error_iff.mp failed with refused | ⟨next, taken, later⟩
  · exact .inl refused
  · exact .inr ⟨next, taken, map_eq_error_iff.mp later⟩

/-- A fault of the walk is the fault of one of the two streams, read on its own. -/
theorem mergeFrom_eq_error {first second : Frontier} {ps ss : List Token} {fault : Fault}
    (failed : mergeFrom first second ps ss = .error fault) :
    ps.foldlM Frontier.accept first = .error fault ∨
      ss.foldlM Frontier.accept second = .error fault := by
  fun_induction mergeFrom first second ps ss with
  | case1 => cases failed
  | case2 first second p ps ih | case4 first second p ps s ss _ ih =>
      rw [Frontier.foldlM_accept_cons_eq_error_iff]
      rcases accept_then_eq_error failed with refused | ⟨next, taken, later⟩
      · exact .inl (.inl refused)
      · exact (ih next later).imp_left fun tail => .inr ⟨next, taken, tail⟩
  | case3 first second s ss ih | case5 first second p ps s ss _ ih
  | case6 first second p ps s ss _ ih =>
      rw [@Frontier.foldlM_accept_cons_eq_error_iff second]
      rcases accept_then_eq_error failed with refused | ⟨next, taken, later⟩
      · exact .inr (.inl refused)
      · exact (ih next later).imp_right fun tail => .inr ⟨next, taken, tail⟩

theorem accept_then_eq_ok {frontier : Frontier} {token : Token} {effect : Overlay → Overlay}
    {rest : Frontier → Except Fault Overlay} {overlay : Overlay}
    (run : (do
      let next ← frontier.accept token
      effect <$> rest next) = .ok overlay) :
    frontier.admits token ∧ ∃ overlay, rest (frontier.advance token) = .ok overlay := by
  obtain ⟨next, taken, run⟩ := bind_eq_ok_iff.mp run
  obtain ⟨others, later, -⟩ := map_eq_ok_iff.mp run
  by_cases admitted : frontier.admits token
  · rw [Frontier.accept_of_admits admitted, Except.ok.injEq] at taken
    exact ⟨admitted, others, taken ▸ later⟩
  · obtain ⟨line, stop, -, refused⟩ := Frontier.accept_of_not_admits admitted
    rw [refused] at taken
    cases taken

/-- A walk that ends well has read both streams to their ends. -/
theorem admitsAll_of_mergeFrom_eq_ok {first second : Frontier} {ps ss : List Token}
    {overlay : Overlay} (run : mergeFrom first second ps ss = .ok overlay) :
    first.AdmitsAll ps ∧ second.AdmitsAll ss := by
  fun_induction mergeFrom first second ps ss generalizing overlay with
  | case1 first second => exact ⟨first.admitsAll_nil, second.admitsAll_nil⟩
  | case2 first second p ps ih | case4 first second p ps s ss _ ih =>
      obtain ⟨admitted, others, later⟩ := accept_then_eq_ok run
      exact (ih _ later).imp_left fun tail => Frontier.admitsAll_cons.mpr ⟨admitted, tail⟩
  | case3 first second s ss ih | case5 first second p ps s ss _ ih
  | case6 first second p ps s ss _ ih =>
      obtain ⟨admitted, others, later⟩ := accept_then_eq_ok run
      exact (ih _ later).imp_right fun tail => Frontier.admitsAll_cons.mpr ⟨admitted, tail⟩

/-! ## Main results -/

/-- Sorting the unconflicted tokens puts them in order again. -/
theorem inOrder_arranged {primary secondary : List Token} (primaryOrder : InOrder primary)
    (secondaryOrder : InOrder secondary) : InOrder (arranged primary secondary) := by
  have unsorted : (clear primary secondary ++ primary).Pairwise (¬ Token.Conflicts · ·) := by
    refine List.pairwise_append.mpr ⟨?_, (inOrder_iff_sorted.mp primaryOrder).2, ?_⟩
    · exact (inOrder_iff_sorted.mp secondaryOrder).2.filter _
    · intro s kept p member conflict
      exact (mem_clear.mp kept).2 p member conflict.symm
  refine inOrder_iff_sorted.mpr ⟨?_, ?_⟩
  · exact List.pairwise_mergeSort Token.placeLe_trans Token.placeLe_total _
  · exact ((List.mergeSort_perm _ _).pairwise_iff fun apart conflict => apart conflict.symm).mpr
      unsorted

/-- Two streams merge without a fault if and only if both are in order. -/
theorem merge_isOk_iff {primary secondary : List Token} :
    (∃ overlay, merge primary secondary = .ok overlay) ↔ InOrder primary ∧ InOrder secondary := by
  constructor
  · rintro ⟨overlay, run⟩
    obtain ⟨first, second⟩ := admitsAll_of_mergeFrom_eq_ok run
    exact ⟨Frontier.admitsAll_fresh.mp first, Frontier.admitsAll_fresh.mp second⟩
  · rintro ⟨primaryOrder, secondaryOrder⟩
    obtain ⟨overlay, run, -⟩ := mergeFrom_eq_ok _ _ primary secondary
      (Frontier.admitsAll_fresh.mpr primaryOrder) (Frontier.admitsAll_fresh.mpr secondaryOrder)
    exact ⟨overlay, run⟩

/-- A fault names a stream that is not in order. -/
theorem merge_eq_error {primary secondary : List Token} {fault : Fault}
    (failed : merge primary secondary = .error fault) :
    ∃ position line start previousLine previousEnd,
      ¬ InOrder primary ∧
        fault = .orderingViolation .semantic position line start previousLine previousEnd ∨
      ¬ InOrder secondary ∧
        fault = .orderingViolation .lexical position line start previousLine previousEnd := by
  have refused : ∀ {stream : Stream} {tokens : List Token},
      tokens.foldlM Frontier.accept { stream } = .error fault → ¬ InOrder tokens := by
    intro stream tokens failed order
    obtain ⟨last, done⟩ :=
      Frontier.foldlM_accept_eq_ok_iff.mpr (Frontier.admitsAll_fresh.mpr order)
    rw [failed] at done
    cases done
  rcases mergeFrom_eq_error failed with first | second
  · obtain ⟨position, line, start, previousLine, previousEnd, rfl⟩ :=
      Frontier.foldlM_accept_eq_error first
    exact ⟨position, line, start, previousLine, previousEnd, .inl ⟨refused first, rfl⟩⟩
  · obtain ⟨position, line, start, previousLine, previousEnd, rfl⟩ :=
      Frontier.foldlM_accept_eq_error second
    exact ⟨position, line, start, previousLine, previousEnd, .inr ⟨refused second, rfl⟩⟩

theorem merge_tokens {primary secondary : List Token} {overlay : Overlay}
    (run : merge primary secondary = .ok overlay) :
    overlay.tokens = arranged primary secondary ∧
      overlay.occluded + (clear primary secondary).length = secondary.length := by
  obtain ⟨first, second⟩ := admitsAll_of_mergeFrom_eq_ok run
  obtain ⟨same, again, tokens, count⟩ := mergeFrom_eq_ok _ _ primary secondary first second
  rw [merge, again, Except.ok.injEq] at run
  subst run
  exact ⟨tokens, count⟩

theorem length_tokens {primary secondary : List Token} {overlay : Overlay}
    (run : merge primary secondary = .ok overlay) :
    overlay.tokens.length + overlay.occluded = primary.length + secondary.length ∧
      overlay.occluded ≤ secondary.length := by
  obtain ⟨tokens, count⟩ := merge_tokens run
  rw [tokens, arranged, List.length_mergeSort, List.length_append]
  omega

/-- What it is for an overlay to be made of two streams. -/
structure IsArrangement (primary secondary : List Token) (overlay : Overlay) : Prop where
  /-- The tokens are the stable sort of the unconflicted secondary tokens and all primary ones. -/
  tokens_eq : overlay.tokens = ((secondary.filter fun s => ∀ p ∈ primary, ¬ p.Conflicts s) ++
    primary).mergeSort Token.placeLe
  /-- All primary tokens stay, in their order. -/
  primary_sublist : primary.Sublist overlay.tokens
  /-- Of the secondary tokens just those are missing that conflict with some primary one. -/
  count_eq : ∀ token, overlay.tokens.count token = primary.count token +
    if ∃ p ∈ primary, p.Conflicts token then 0 else secondary.count token
  inOrder : InOrder overlay.tokens
  occluded_add_length : overlay.occluded + overlay.tokens.length =
    primary.length + secondary.length

/-- Two streams that are in order merge, and to what is described by `IsArrangement`. -/
theorem merge_isArrangement {primary secondary : List Token} (primaryOrder : InOrder primary)
    (secondaryOrder : InOrder secondary) :
    ∃ overlay, merge primary secondary = .ok overlay ∧
      overlay.IsArrangement primary secondary := by
  obtain ⟨overlay, run⟩ := merge_isOk_iff.mpr ⟨primaryOrder, secondaryOrder⟩
  obtain ⟨tokens, count⟩ := merge_tokens run
  refine ⟨overlay, run, tokens, ?_, ?_, ?_, ?_⟩
  · rw [tokens]
    exact List.sublist_mergeSort Token.placeLe_trans Token.placeLe_total
      (inOrder_iff_sorted.mp primaryOrder).1 (List.sublist_append_right _ _)
  · intro token
    rw [tokens, arranged, (List.mergeSort_perm _ _).count_eq, List.count_append, count_clear,
      Nat.add_comm]
  · rw [tokens]
    exact inOrder_arranged primaryOrder secondaryOrder
  · rw [tokens, arranged, List.length_mergeSort, List.length_append]
    omega

/-- Marks at the ends of the first primary token stay and one inside it goes, as does a token that
covers a primary mark. -/
theorem merge_isArrangement_marks :
    InOrder [⟨0, 2, 3, "function", .empty⟩, ⟨1, 1, 0, "label", .empty⟩] ∧
    InOrder [⟨0, 2, 0, "comment", .empty⟩, ⟨0, 3, 0, "comment", .empty⟩,
      ⟨0, 5, 0, "comment", .empty⟩, ⟨1, 0, 4, "string", .empty⟩] ∧
    ∃ overlay, merge [⟨0, 2, 3, "function", .empty⟩, ⟨1, 1, 0, "label", .empty⟩]
      [⟨0, 2, 0, "comment", .empty⟩, ⟨0, 3, 0, "comment", .empty⟩,
        ⟨0, 5, 0, "comment", .empty⟩, ⟨1, 0, 4, "string", .empty⟩] = .ok overlay ∧
      overlay.IsArrangement [⟨0, 2, 3, "function", .empty⟩, ⟨1, 1, 0, "label", .empty⟩]
        [⟨0, 2, 0, "comment", .empty⟩, ⟨0, 3, 0, "comment", .empty⟩,
          ⟨0, 5, 0, "comment", .empty⟩, ⟨1, 0, 4, "string", .empty⟩] :=
  ⟨by decide, by decide, merge_isArrangement (by decide) (by decide)⟩

end Overlay

end TokenMarkup
