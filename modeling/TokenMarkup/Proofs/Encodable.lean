import TokenMarkup.Proofs.StreamReading

/-!
# Which tokens can be written

A token is written relative to the start of the one in front of it. `Token.IsEncodable` says when
that can be done, and `Token.Unencodable` what is reported when it cannot: of all that is wrong with
a token the first in the order in which encoding looks, which is not the order of the entries.

Main statement: `Wire.encode_refuses_iff`. A list is written if and only if it is `IsEncodable`, and
else the fault is that of the first token that stands in the way.
-/

namespace TokenMarkup

/-- Whether there is a bit for a modifier name in an entry: its first place in the legend is one of
the 32 that an entry has room for. -/
def Legend.HasBit (legend : Legend) (name : String) : Prop :=
  ∃ bit < 32, FirstAt legend.modifiers name bit

namespace Token

/-- Whether a token starts at a place, given by line and position, or behind it. -/
def StartsFrom (place : Nat × Nat) (token : Token) : Prop :=
  place.1 < token.line ∨ place.1 = token.line ∧ place.2 ≤ token.start

/-- How many lines below a place a token starts. -/
def lineDelta (place : Nat × Nat) (token : Token) : Nat := token.line - place.1

/-- How many units to the right a token starts: from a place on the same line, else from the start
of its line. -/
def startDelta (place : Nat × Nat) (token : Token) : Nat :=
  if token.line = place.1 then token.start - place.2 else token.start

/-- Whether the numbers of a token, counted from a place, each fit into an entry. -/
structure HasRoom (place : Nat × Nat) (token : Token) : Prop where
  line : token.lineDelta place < UInt32.size
  start : token.startDelta place < UInt32.size
  length : token.length < UInt32.size

/-- Whether a token can be written behind one that starts at a place. -/
structure IsEncodable (legend : Legend) (place : Nat × Nat) (token : Token) : Prop where
  order : token.StartsFrom place
  type : token.type ∈ legend.types
  modifiers : ∀ name ∈ token.modifiers.names, legend.HasBit name
  room : token.HasRoom place

/-- What is wrong with token `k` of a list if it cannot be written behind one that starts at a
place. The order is looked at first, then the names, and then the numbers. -/
inductive Unencodable (legend : Legend) (k : Nat) (place : Nat × Nat) (token : Token) :
    Fault → Prop
  | order : ¬ token.StartsFrom place →
      Unencodable legend k place token
        (.orderingViolation .semantic k token.line token.start place.1 place.2)
  | type : token.StartsFrom place → token.type ∉ legend.types →
      Unencodable legend k place token
        (.malformedStream (Wire.stride * k + 3) (.unlistedType token.type))
  /-- The first modifier without a bit. -/
  | modifier {before after : List String} {name : String} : token.StartsFrom place →
      token.type ∈ legend.types → token.modifiers.names = before ++ name :: after →
      (∀ earlier ∈ before, legend.HasBit earlier) → ¬ legend.HasBit name →
      Unencodable legend k place token
        (.malformedStream (Wire.stride * k + 4) (.unlistedModifier name))
  | line : token.StartsFrom place → token.type ∈ legend.types →
      (∀ name ∈ token.modifiers.names, legend.HasBit name) →
      UInt32.size ≤ token.lineDelta place →
      Unencodable legend k place token
        (.malformedStream (Wire.stride * k) (.oversized (token.lineDelta place)))
  | start : token.StartsFrom place → token.type ∈ legend.types →
      (∀ name ∈ token.modifiers.names, legend.HasBit name) →
      token.lineDelta place < UInt32.size → UInt32.size ≤ token.startDelta place →
      Unencodable legend k place token
        (.malformedStream (Wire.stride * k + 1) (.oversized (token.startDelta place)))
  | length : token.StartsFrom place → token.type ∈ legend.types →
      (∀ name ∈ token.modifiers.names, legend.HasBit name) →
      token.lineDelta place < UInt32.size → token.startDelta place < UInt32.size →
      UInt32.size ≤ token.length →
      Unencodable legend k place token
        (.malformedStream (Wire.stride * k + 2) (.oversized token.length))

end Token

namespace Wire

variable {legend : Legend} {ordinal line start : Nat} {place : Nat × Nat} {token : Token}
  {fault : Fault}

/-! ## Entries -/

theorem entry_isOk_iff {value position : Nat} :
    (∃ written, entry value position = .ok written) ↔ value < UInt32.size := by
  unfold entry
  split <;> simp_all

theorem entry_eq_error_iff {value position : Nat} :
    entry value position = .error fault ↔
      UInt32.size ≤ value ∧ fault = .malformedStream position (.oversized value) := by
  unfold entry
  split
  · next small => simp [small]
  · next large => simp [Nat.le_of_not_lt large, eq_comm]

theorem exists_firstAt_iff_mem {names : List String} {name : String} :
    (∃ place, FirstAt names name place) ↔ name ∈ names := by
  constructor
  · rintro ⟨place, first⟩
    exact first.mem
  · intro member
    obtain ⟨place, found⟩ := List.mem_iff_getElem?.mp member
    obtain ⟨first, -, firstAt⟩ := exists_firstAt found
    exact ⟨first, firstAt⟩

theorem typeEntry_isOk_iff {name : String} :
    (∃ written, typeEntry legend ordinal name = .ok written) ↔ name ∈ legend.types := by
  simp only [typeEntry_eq_ok_iff, ← exists_firstAt_iff_mem]
  constructor
  · rintro ⟨_, place, first, -⟩
    exact ⟨place, first⟩
  · rintro ⟨place, first⟩
    exact ⟨_, place, first, rfl⟩

theorem typeEntry_eq_error_iff {name : String} :
    typeEntry legend ordinal name = .error fault ↔
      name ∉ legend.types ∧
        fault = .malformedStream (stride * ordinal + 3) (.unlistedType name) := by
  rw [← @typeEntry_isOk_iff legend ordinal, Nat.mul_comm]
  unfold typeEntry
  cases legend.typeIndex? name <;> simp [eq_comm]

theorem modifierBit_isOk_iff {name : String} :
    (∃ bit, modifierBit legend ordinal name = .ok bit) ↔ legend.HasBit name := by
  simp only [modifierBit_eq_ok_iff, Legend.HasBit, and_comm]

theorem modifierBit_eq_error_iff {name : String} :
    modifierBit legend ordinal name = .error fault ↔
      ¬ legend.HasBit name ∧
        fault = .malformedStream (stride * ordinal + 4) (.unlistedModifier name) := by
  rw [← @modifierBit_isOk_iff legend ordinal, Nat.mul_comm]
  unfold modifierBit
  split
  · split <;> simp [eq_comm]
  · simp [eq_comm]

theorem modifiersEntry_isOk_iff {set : Modifiers} :
    (∃ written, modifiersEntry legend ordinal set = .ok written) ↔
      ∀ name ∈ set.names, legend.HasBit name := by
  constructor
  · rintro ⟨written, run⟩
    exact firstAt_of_modifiersEntry run
  · intro room
    obtain ⟨written, run, -⟩ := @modifiersEntry_eq_ok legend ordinal set room
    exact ⟨written, run⟩

theorem modifiersEntry_eq_error_iff {set : Modifiers} :
    modifiersEntry legend ordinal set = .error fault ↔
      ∃ before name after, set.names = before ++ name :: after ∧
        (∀ earlier ∈ before, legend.HasBit earlier) ∧ ¬ legend.HasBit name ∧
        fault = .malformedStream (stride * ordinal + 4) (.unlistedModifier name) := by
  unfold modifiersEntry
  simp only [bind_pure_comp]
  rw [foldlM_map_eq_error_iff]
  simp only [FirstFault, modifierBit_isOk_iff, modifierBit_eq_error_iff]

/-! ## One token -/

/-- One token in relation to a place. -/
def relateToken (legend : Legend) (ordinal : Nat) (place : Nat × Nat) (token : Token) :
    Except Fault RelativeToken := do
  if token.line < place.1 ∨ (token.line = place.1 ∧ token.start < place.2) then
    throw (.orderingViolation .semantic ordinal token.line token.start place.1 place.2)
  let type ← typeEntry legend ordinal token.type
  let modifiers ← modifiersEntry legend ordinal token.modifiers
  let lineEntry ← entry (token.lineDelta place) (ordinal * stride)
  let startEntry ← entry (token.startDelta place) (ordinal * stride + 1)
  let lengthEntry ← entry token.length (ordinal * stride + 2)
  return ⟨lineEntry, startEntry, lengthEntry, type, modifiers⟩

theorem not_startsFrom_iff :
    ¬ token.StartsFrom place ↔
      token.line < place.1 ∨ token.line = place.1 ∧ token.start < place.2 := by
  unfold Token.StartsFrom
  omega

theorem relate_cons (token : Token) (rest : List Token) :
    relate legend ordinal line start (token :: rest) = do
      let relative ← relateToken legend ordinal (line, start) token
      let others ← relate legend (ordinal + 1) token.line token.start rest
      return relative :: others := by
  rw [relate, relateToken]
  by_cases behind : token.line < line ∨ token.line = line ∧ token.start < start
  · rw [if_pos behind, if_pos behind]
    rfl
  · have sameLine : token.line - line = 0 ↔ token.line = line := by omega
    rw [if_neg behind, if_neg behind]
    simp only [bind_assoc, pure_bind, Token.lineDelta, Token.startDelta, sameLine]

theorem relateToken_isOk_iff :
    (∃ relative, relateToken legend ordinal place token = .ok relative) ↔
      token.IsEncodable legend place := by
  rw [relateToken]
  by_cases behind : token.line < place.1 ∨ token.line = place.1 ∧ token.start < place.2
  · rw [if_pos behind]
    exact iff_of_false nofun fun encodable => not_startsFrom_iff.mpr behind encodable.order
  · have order : token.StartsFrom place := not_not.mp (mt not_startsFrom_iff.mp behind)
    rw [if_neg behind]
    simp only [bind_eq_ok_iff]
    constructor
    · rintro ⟨relative, type, typed, modifiers, modified, lineEntry, lineRoom, startEntry,
        startRoom, lengthEntry, lengthRoom, -⟩
      exact ⟨order, typeEntry_isOk_iff.mp ⟨_, typed⟩, modifiersEntry_isOk_iff.mp ⟨_, modified⟩,
        entry_isOk_iff.mp ⟨_, lineRoom⟩, entry_isOk_iff.mp ⟨_, startRoom⟩,
        entry_isOk_iff.mp ⟨_, lengthRoom⟩⟩
    · rintro ⟨-, type, modifiers, line, start, length⟩
      obtain ⟨type, typed⟩ := (@typeEntry_isOk_iff legend ordinal _).mpr type
      obtain ⟨modifiers, modified⟩ := (@modifiersEntry_isOk_iff legend ordinal _).mpr modifiers
      obtain ⟨lineEntry, lineRoom⟩ := (@entry_isOk_iff _ (ordinal * stride)).mpr line
      obtain ⟨startEntry, startRoom⟩ := (@entry_isOk_iff _ (ordinal * stride + 1)).mpr start
      obtain ⟨lengthEntry, lengthRoom⟩ := (@entry_isOk_iff _ (ordinal * stride + 2)).mpr length
      exact ⟨_, type, typed, modifiers, modified, lineEntry, lineRoom, startEntry, startRoom,
        lengthEntry, lengthRoom, rfl⟩

theorem relateToken_eq_error_iff :
    relateToken legend ordinal place token = .error fault ↔
      token.Unencodable legend ordinal place fault := by
  rw [relateToken]
  by_cases behind : token.line < place.1 ∨ token.line = place.1 ∧ token.start < place.2
  · have disorder : ¬ token.StartsFrom place := not_startsFrom_iff.mpr behind
    rw [if_pos behind]
    constructor
    · intro failed
      cases failed
      exact .order disorder
    · intro unencodable
      cases unencodable with
      | order => rfl
      | _ order => exact absurd order disorder
  · have order : token.StartsFrom place := not_not.mp (mt not_startsFrom_iff.mp behind)
    rw [if_neg behind]
    -- No step's failing depends on what the steps before it gave, only on that they gave something.
    simp only [bind_eq_error_iff, pure, Except.pure, reduceCtorEq, and_false, exists_false,
      or_false, exists_and_right, typeEntry_isOk_iff, typeEntry_eq_error_iff,
      modifiersEntry_isOk_iff, modifiersEntry_eq_error_iff, entry_isOk_iff, entry_eq_error_iff,
      Nat.mul_comm ordinal]
    constructor
    · rintro (⟨unlisted, rfl⟩ | ⟨type, ⟨before, name, ⟨after, same⟩, earlier, unlisted, rfl⟩ |
        ⟨modifiers, ⟨large, rfl⟩ | ⟨line, ⟨large, rfl⟩ | ⟨start, large, rfl⟩⟩⟩⟩)
      · exact .type order unlisted
      · exact .modifier order type same earlier unlisted
      · exact .line order type modifiers large
      · exact .start order type modifiers line large
      · exact .length order type modifiers line start large
    · intro unencodable
      cases unencodable with
      | order disorder => exact absurd order disorder
      | type _ unlisted => exact .inl ⟨unlisted, rfl⟩
      | modifier _ type same earlier unlisted =>
          exact .inr ⟨type, .inl ⟨_, _, ⟨_, same⟩, earlier, unlisted, rfl⟩⟩
      | line _ type modifiers large => exact .inr ⟨type, .inr ⟨modifiers, .inl ⟨large, rfl⟩⟩⟩
      | start _ type modifiers line large =>
          exact .inr ⟨type, .inr ⟨modifiers, .inr ⟨line, .inl ⟨large, rfl⟩⟩⟩⟩
      | length _ type modifiers line start large =>
          exact .inr ⟨type, .inr ⟨modifiers, .inr ⟨line, .inr ⟨start, large, rfl⟩⟩⟩⟩

/-! ## All tokens -/

/-- The last token of a list is related to the start of the one in front of it. -/
theorem relate_concat (before : List Token) (token : Token) :
    relate legend ordinal line start (before ++ [token]) = (do
      let front ← relate legend ordinal line start before
      (fun last => front ++ [last]) <$>
        relateToken legend (ordinal + before.length) (origin (line, start) before) token) := by
  induction before generalizing ordinal line start with
  | nil =>
      rw [List.nil_append, relate_cons, origin_nil, List.length_nil, Nat.add_zero, relate, relate]
      cases relateToken legend ordinal (line, start) token <;> rfl
  | cons first before ih =>
      have shifted : ordinal + (first :: before).length = ordinal + 1 + before.length := by
        rw [List.length_cons]
        omega
      rw [List.cons_append, relate_cons, relate_cons, origin_cons, shifted]
      simp only [ih, bind_assoc, pure_bind, map_eq_pure_bind, List.cons_append]

/-- Whether all of a list can be written. -/
structure IsEncodable (legend : Legend) (tokens : List Token) : Prop where
  sorted : tokens.Pairwise Token.StartsBy
  types : ∀ token ∈ tokens, token.type ∈ legend.types
  modifiers : ∀ token ∈ tokens, ∀ name ∈ token.modifiers.names, legend.HasBit name
  /-- The first token is counted from the start of the text, and any other one from the start of the
  token in front of it. -/
  room : ∀ before token after, tokens = before ++ token :: after →
    token.HasRoom (origin (0, 0) before)

theorem startsFrom_origin_iff {before : List Token} :
    token.StartsFrom (origin (0, 0) before) ↔
      ∀ previous ∈ before.getLast?, previous.StartsBy token := by
  unfold origin Token.StartsFrom
  cases before.getLast? with
  | none =>
      simp
      omega
  | some previous => simp [Token.StartsBy]

/-- One more token can be written if the others can, and the token behind them. -/
theorem isEncodable_concat_iff {before : List Token} :
    IsEncodable legend (before ++ [token]) ↔
      IsEncodable legend before ∧ token.IsEncodable legend (origin (0, 0) before) := by
  constructor
  · rintro ⟨sorted, types, modifiers, room⟩
    rw [← List.isChain_iff_pairwise, List.isChain_append] at sorted
    rw [List.forall_mem_append, List.forall_mem_singleton] at types modifiers
    refine ⟨⟨List.isChain_iff_pairwise.mp sorted.1, types.1, modifiers.1, ?_⟩,
      ⟨startsFrom_origin_iff.mpr ?_, types.2, modifiers.2, room before token [] rfl⟩⟩
    · intro front inner after same
      exact room front inner (after ++ [token]) (by rw [same]; simp)
    · intro previous last
      exact sorted.2.2 previous last token rfl
  · rintro ⟨⟨sorted, types, modifiers, room⟩, order, type, modifiers', room'⟩
    rw [startsFrom_origin_iff] at order
    refine ⟨?_, ?_, ?_, ?_⟩
    · rw [← List.isChain_iff_pairwise, List.isChain_append]
      refine ⟨List.isChain_iff_pairwise.mpr sorted, List.isChain_singleton token, ?_⟩
      rintro previous last _ ⟨⟩
      exact order previous last
    · exact List.forall_mem_append.mpr ⟨types, List.forall_mem_singleton.mpr type⟩
    · exact List.forall_mem_append.mpr ⟨modifiers, List.forall_mem_singleton.mpr modifiers'⟩
    · intro front inner after same
      rcases concat_eq_append_cons_iff.mp same with ⟨rest, rfl, -⟩ | ⟨rfl, rfl, -⟩
      · exact room front inner rest rfl
      · exact room'

theorem relate_isOk_iff {tokens : List Token} :
    (∃ relatives, relate legend 0 0 0 tokens = .ok relatives) ↔ IsEncodable legend tokens := by
  induction tokens using List.reverseRecOn with
  | nil => exact iff_of_true ⟨[], rfl⟩ ⟨.nil, by simp, by simp, by simp⟩
  | append_singleton before token ih =>
      rw [isEncodable_concat_iff, ← ih, relate_concat,
        ← @relateToken_isOk_iff _ (0 + before.length)]
      simp only [bind_eq_ok_iff, map_eq_ok_iff]
      constructor
      · rintro ⟨_, front, written, last, related, -⟩
        exact ⟨⟨front, written⟩, last, related⟩
      · rintro ⟨⟨front, written⟩, last, related⟩
        exact ⟨_, front, written, last, related, rfl⟩

/-- A list of tokens is written if and only if it can be, and else the fault is that of the first
token that cannot be written behind the others. -/
theorem encode_refuses_iff (tokens : List Token) (legend : Legend) :
    ((∃ stream, encode tokens legend = .ok stream) ↔ IsEncodable legend tokens) ∧
    ∀ fault, encode tokens legend = .error fault ↔
      FirstFault (IsEncodable legend)
        (fun before token => token.Unencodable legend before.length (origin (0, 0) before))
        tokens fault := by
  constructor
  · rw [← relate_isOk_iff]
    simp [encode, map_eq_ok_iff]
  · intro fault
    rw [encode, map_eq_error_iff,
      eq_error_iff_firstFault (relate legend 0 0 0) ⟨[], rfl⟩ relate_concat]
    simp only [relate_isOk_iff, relateToken_eq_error_iff, Nat.zero_add]

end Wire

end TokenMarkup
