import TokenMarkup.Proofs.Steps
import TokenMarkup.Proofs.TokenOrder
import TokenMarkup.Wire

/-!
# What decoding guarantees

A stream cannot say that a token starts in front of the one before it, so decoded tokens are sorted
by line and start (`Wire.decode_sorted`). They may overlap; that is all that is left for the order
check to find (`inOrder_iff_of_sorted`). A stream that is not decoded is malformed, and no other
fault is reported of it (`Wire.decode_eq_error`).
-/

namespace TokenMarkup

/-- Whether a token starts at or behind the start of the one in front of it. -/
def Token.StartsBy (a b : Token) : Prop :=
  a.line < b.line ∨ a.line = b.line ∧ a.start ≤ b.start

theorem Token.StartsBy.trans {a b c : Token} (ab : a.StartsBy b) (bc : b.StartsBy c) :
    a.StartsBy c := by
  simp only [StartsBy] at *
  omega

instance : Trans Token.StartsBy Token.StartsBy Token.StartsBy := ⟨Token.StartsBy.trans⟩

/-- Among sorted tokens only neighbours on one line can be out of order. -/
theorem inOrder_iff_of_sorted {tokens : List Token} (sorted : tokens.IsChain Token.StartsBy) :
    InOrder tokens ↔ tokens.IsChain fun a b => a.line = b.line → a.stop ≤ b.start := by
  rw [List.isChain_iff_getElem] at sorted
  rw [InOrder, List.isChain_iff_getElem, List.isChain_iff_getElem]
  refine forall_congr' fun i => forall_congr' fun inside => ?_
  have starts := sorted i inside
  simp only [Token.StartsBy, Token.EndsBefore] at starts ⊢
  omega

/-- Whether a fault is one of a relative stream. -/
def Fault.IsOfStream (fault : Fault) : Prop :=
  ∃ position defect, fault = .malformedStream position defect

namespace Wire

variable {legend : Legend} {ordinal line start : Nat} {fault : Fault}

theorem resolve_cons_eq_ok_iff {token : RelativeToken} {rest : List RelativeToken}
    {tokens : List Token} :
    resolve legend ordinal line start (token :: rest) = .ok tokens ↔
      ∃ type modifiers others,
        resolveType legend ordinal token.type = .ok type ∧
        resolveModifiers legend ordinal token.modifiers = .ok modifiers ∧
        resolve legend (ordinal + 1) (line + token.deltaLine.toNat)
          (if token.deltaLine = 0 then start + token.deltaStart.toNat
            else token.deltaStart.toNat) rest = .ok others ∧
        tokens = ⟨line + token.deltaLine.toNat,
          if token.deltaLine = 0 then start + token.deltaStart.toNat else token.deltaStart.toNat,
          token.length.toNat, type, modifiers⟩ :: others := by
  simp only [resolve, bind_eq_ok_iff]
  constructor
  · rintro ⟨type, typed, modifiers, modified, others, run, same⟩
    cases same
    exact ⟨type, modifiers, others, typed, modified, run, rfl⟩
  · rintro ⟨type, modifiers, others, typed, modified, run, rfl⟩
    exact ⟨type, typed, modifiers, modified, others, run, rfl⟩

/-- The tokens of what is left of a stream are sorted, and none starts in front of where the token
before them does. -/
theorem resolve_sorted {groups : List RelativeToken} {tokens : List Token}
    (run : resolve legend ordinal line start groups = .ok tokens) :
    tokens.IsChain Token.StartsBy ∧ ∀ first ∈ tokens.head?,
      line < first.line ∨ line = first.line ∧ start ≤ first.start := by
  induction groups generalizing ordinal line start tokens with
  | nil =>
      cases run
      simp
  | cons token rest ih =>
      obtain ⟨type, modifiers, others, -, -, tail, rfl⟩ := resolve_cons_eq_ok_iff.mp run
      obtain ⟨sorted, behind⟩ := ih tail
      refine ⟨List.isChain_cons.mpr ⟨behind, sorted⟩, ?_⟩
      simp only [List.head?_cons, Option.mem_some_iff, forall_eq']
      by_cases sameLine : token.deltaLine = 0
      · -- On the same line the start only grows; a lower line may start anywhere.
        simp [sameLine]
      · have moved : token.deltaLine.toNat ≠ 0 := fun zero => sameLine (UInt32.toNat_inj.mp zero)
        omega

/-- Decoded tokens are sorted by line and start. -/
theorem decode_sorted {stream : List UInt32} {tokens : List Token}
    (run : decode stream legend = .ok tokens) : tokens.IsChain Token.StartsBy := by
  rw [decode] at run
  split at run
  · cases run
  · exact (resolve_sorted run).1

/-! ## Faults -/

theorem resolveType_eq_error {index : UInt32}
    (failed : resolveType legend ordinal index = .error fault) : fault.IsOfStream := by
  rw [resolveType] at failed
  split at failed
  · cases failed
  · cases failed
    exact ⟨_, _, rfl⟩

theorem resolveBit_eq_error {bit : Nat} (failed : resolveBit legend ordinal bit = .error fault) :
    fault.IsOfStream := by
  rw [resolveBit] at failed
  split at failed
  · cases failed
  · cases failed
    exact ⟨_, _, rfl⟩

theorem resolveModifiers_eq_error {entry : UInt32}
    (failed : resolveModifiers legend ordinal entry = .error fault) : fault.IsOfStream := by
  rw [resolveModifiers] at failed
  generalize setBits entry = bits, Modifiers.empty = set at failed
  induction bits generalizing set with
  | nil => cases failed
  | cons bit bits ih =>
      rw [List.foldlM_cons, bind_eq_error_iff] at failed
      rcases failed with unresolved | ⟨set', -, later⟩
      · exact resolveBit_eq_error (map_eq_error_iff.mp unresolved)
      · exact ih set' later

theorem resolve_eq_error {groups : List RelativeToken}
    (failed : resolve legend ordinal line start groups = .error fault) : fault.IsOfStream := by
  induction groups generalizing ordinal line start with
  | nil => cases failed
  | cons token rest ih =>
      simp only [resolve, bind_eq_error_iff] at failed
      rcases failed with
        untyped | ⟨type, -, unmodified | ⟨modifiers, -, later | ⟨others, -, never⟩⟩⟩
      · exact resolveType_eq_error untyped
      · exact resolveModifiers_eq_error unmodified
      · exact ih later
      · cases never

/-- A stream that is not decoded is malformed. -/
theorem decode_eq_error {stream : List UInt32} (failed : decode stream legend = .error fault) :
    fault.IsOfStream := by
  rw [decode] at failed
  split at failed
  · cases failed
    exact ⟨_, _, rfl⟩
  · exact resolve_eq_error failed

end Wire

end TokenMarkup
