import Mathlib.Algebra.BigOperators.Intervals
import Mathlib.Data.Nat.Find
import TokenMarkup.Proofs.RoundTrip

/-!
# What a stream says

A stream is read from left to right, each token relative to the one in front of it. Here is what it
says all at once, by the numbers of its groups:

* `groupAt` is group `k` of a stream, by the indices of its five entries. `lineAt` and `startAt` add
  up the steps of the groups: the lines from the first group on, the starts from the last group on
  that moved to another line.
* `IsReading` puts the tokens of a stream in these terms, and `IsMalformed` gives the fault of a
  stream that has none: that it does not divide into groups, or else the first group with a number
  that stands for no name.

Main statement: `decode_isReading`, which leaves no third case.
-/

namespace TokenMarkup

/-! ## Names kept once -/

namespace Modifiers

/-- Names that are inserted one after the other stay where they come first. -/
theorem names_foldl_insert (names : List String) (set : Modifiers) :
    (names.foldl insert set).names =
      set.names ++ (names.filter fun name => !set.names.contains name).eraseDups := by
  induction names generalizing set with
  | nil => simp
  | cons first rest ih =>
      rw [List.foldl_cons, ih, insert]
      cases present : set.contains first with
      | true =>
          have listed : set.names.contains first := present
          rw [if_pos rfl, List.filter_cons_of_neg (by rw [listed]; decide)]
      | false =>
          have absent : set.names.contains first = false := present
          rw [if_neg (by decide), List.filter_cons_of_pos (by rw [absent]; rfl),
            List.eraseDups_cons, List.filter_filter]
          simp [Bool.and_comm, beq_eq_decide]

theorem names_ofList (names : List String) : (ofList names).names = names.eraseDups := by
  simp [ofList, names_foldl_insert, empty]

end Modifiers

/-! ## Names of one group -/

/-- Whether the numbers of a relative token stand for names of a legend. -/
structure RelativeToken.IsListed (legend : Legend) (relative : RelativeToken) : Prop where
  type : relative.type.toNat < legend.types.length
  modifiers : ∀ bit, relative.modifiers.toNat.testBit bit → bit < legend.modifiers.length

/-- What is wrong with group `k` of a stream if some number stands for no name. The type is looked
at before the modifiers, and these from the lowest bit on. -/
inductive RelativeToken.Unlisted (legend : Legend) (k : Nat) (relative : RelativeToken) :
    Fault → Prop
  | type : legend.types.length ≤ relative.type.toNat →
      Unlisted legend k relative (.malformedStream (Wire.stride * k + 3)
        (.undefinedType k relative.type.toNat legend.types.length))
  | modifier {bit : Nat} : relative.type.toNat < legend.types.length →
      relative.modifiers.toNat.testBit bit → legend.modifiers.length ≤ bit →
      (∀ lower < bit, relative.modifiers.toNat.testBit lower → lower < legend.modifiers.length) →
      Unlisted legend k relative (.malformedStream (Wire.stride * k + 4)
        (.undefinedModifier k bit legend.modifiers.length))

namespace Wire

variable {legend : Legend} {ordinal line start : Nat} {fault : Fault}

theorem resolveType_isOk_iff {index : UInt32} :
    (∃ name, resolveType legend ordinal index = .ok name) ↔
      index.toNat < legend.types.length := by
  simp [resolveType_eq_ok_iff, Legend.type?, ← Option.isSome_iff_exists]

theorem resolveType_eq_error_iff {index : UInt32} :
    resolveType legend ordinal index = .error fault ↔
      legend.types.length ≤ index.toNat ∧ fault = .malformedStream (stride * ordinal + 3)
        (.undefinedType ordinal index.toNat legend.types.length) := by
  unfold resolveType
  rw [← List.getElem?_eq_none_iff, ← Legend.type?, Nat.mul_comm]
  cases legend.type? index.toNat <;> simp [eq_comm]

theorem resolveBit_isOk_iff {bit : Nat} :
    (∃ name, resolveBit legend ordinal bit = .ok name) ↔ bit < legend.modifiers.length := by
  simp [resolveBit_eq_ok_iff, Legend.modifier?, ← Option.isSome_iff_exists]

theorem resolveBit_eq_error_iff {bit : Nat} :
    resolveBit legend ordinal bit = .error fault ↔
      legend.modifiers.length ≤ bit ∧ fault = .malformedStream (stride * ordinal + 4)
        (.undefinedModifier ordinal bit legend.modifiers.length) := by
  unfold resolveBit
  rw [← List.getElem?_eq_none_iff, ← Legend.modifier?, Nat.mul_comm]
  cases legend.modifier? bit <;> simp [eq_comm]

theorem resolveModifiers_isOk_iff {entry : UInt32} :
    (∃ modifiers, resolveModifiers legend ordinal entry = .ok modifiers) ↔
      ∀ bit, entry.toNat.testBit bit → bit < legend.modifiers.length := by
  simp [resolveModifiers_eq_ok_iff, mem_setBits, Legend.modifier?, ← Option.isSome_iff_exists]

/-- The bits of an entry are gone through upwards, so the fault is that of the lowest one that has
no name. -/
theorem resolveModifiers_eq_error_iff {entry : UInt32} :
    resolveModifiers legend ordinal entry = .error fault ↔
      ∃ bit, entry.toNat.testBit bit ∧ legend.modifiers.length ≤ bit ∧
        (∀ lower < bit, entry.toNat.testBit lower → lower < legend.modifiers.length) ∧
        fault = .malformedStream (stride * ordinal + 4)
          (.undefinedModifier ordinal bit legend.modifiers.length) := by
  unfold resolveModifiers
  rw [foldlM_map_eq_error_iff]
  simp only [FirstFault, resolveBit_isOk_iff, resolveBit_eq_error_iff]
  have ascending := pairwise_setBits entry
  constructor
  · rintro ⟨before, bit, after, same, named, nameless, rfl⟩
    rw [same, List.pairwise_append, List.pairwise_cons] at ascending
    obtain ⟨-, ⟨above, -⟩, -⟩ := ascending
    have member : ∀ other, entry.toNat.testBit other ↔ other ∈ before ++ bit :: after :=
      fun other => by rw [← same, mem_setBits]
    refine ⟨bit, (member bit).mpr (by simp), nameless, ?_, rfl⟩
    intro lower less isSet
    rcases List.mem_append.mp ((member lower).mp isSet) with inFront | behind
    · exact named lower inFront
    · rcases List.mem_cons.mp behind with rfl | later
      · exact absurd less (Nat.lt_irrefl _)
      · exact absurd less (Nat.lt_asymm (above lower later))
  · rintro ⟨bit, isSet, nameless, named, rfl⟩
    obtain ⟨before, after, same⟩ := List.append_of_mem (mem_setBits.mpr isSet)
    rw [same, List.pairwise_append] at ascending
    refine ⟨before, bit, after, same, ?_, nameless, rfl⟩
    intro lower inFront
    have less := ascending.2.2 lower inFront bit List.mem_cons_self
    exact named lower less (mem_setBits.mp (by rw [same]; exact List.mem_append_left _ inFront))

theorem unlisted_iff {relative : RelativeToken} :
    relative.Unlisted legend ordinal fault ↔
      resolveType legend ordinal relative.type = .error fault ∨
        (∃ name, resolveType legend ordinal relative.type = .ok name) ∧
          resolveModifiers legend ordinal relative.modifiers = .error fault := by
  rw [resolveType_eq_error_iff, resolveType_isOk_iff, resolveModifiers_eq_error_iff]
  constructor
  · intro unlisted
    cases unlisted with
    | type unnamed => exact .inl ⟨unnamed, rfl⟩
    | modifier typed isSet unnamed lowest => exact .inr ⟨typed, _, isSet, unnamed, lowest, rfl⟩
  · rintro (⟨unnamed, rfl⟩ | ⟨typed, bit, isSet, unnamed, lowest, rfl⟩)
    · exact .type unnamed
    · exact .modifier typed isSet unnamed lowest

theorem isListed_iff {relative : RelativeToken} :
    relative.IsListed legend ↔
      (∃ type, resolveType legend ordinal relative.type = .ok type) ∧
        ∃ modifiers, resolveModifiers legend ordinal relative.modifiers = .ok modifiers := by
  rw [resolveType_isOk_iff, resolveModifiers_isOk_iff]
  exact ⟨fun ⟨type, modifiers⟩ => ⟨type, modifiers⟩, fun ⟨type, modifiers⟩ => ⟨type, modifiers⟩⟩

/-- A run along the groups ends well if all of them are listed. -/
theorem resolve_isOk_iff {relatives : List RelativeToken} :
    (∃ tokens, resolve legend ordinal line start relatives = .ok tokens) ↔
      ∀ relative ∈ relatives, relative.IsListed legend := by
  induction relatives generalizing ordinal line start with
  | nil => exact iff_of_true ⟨[], rfl⟩ (by simp)
  | cons relative rest ih =>
      rw [List.forall_mem_cons, @isListed_iff legend ordinal]
      constructor
      · rintro ⟨tokens, run⟩
        obtain ⟨type, modifiers, others, typed, modified, tail, -⟩ := resolve_cons_eq_ok_iff.mp run
        exact ⟨⟨⟨type, typed⟩, modifiers, modified⟩, ih.mp ⟨others, tail⟩⟩
      · rintro ⟨⟨⟨type, typed⟩, modifiers, modified⟩, listed⟩
        obtain ⟨others, tail⟩ := ih.mpr listed
        exact ⟨_, resolve_cons_eq_ok_iff.mpr ⟨type, modifiers, others, typed, modified, tail, rfl⟩⟩

/-- A run along the groups fails at the first one that is not listed. -/
theorem resolve_eq_error_iff {relatives : List RelativeToken} :
    resolve legend ordinal line start relatives = .error fault ↔
      FirstFault (fun before => ∀ relative ∈ before, relative.IsListed legend)
        (fun before relative => relative.Unlisted legend (ordinal + before.length))
        relatives fault := by
  induction relatives generalizing ordinal line start with
  | nil => exact iff_of_false nofun not_firstFault_nil
  | cons relative rest ih =>
      have shifted : ∀ before : List RelativeToken,
          ordinal + (relative :: before).length = ordinal + 1 + before.length := by
        intro before
        rw [List.length_cons]
        omega
      rw [firstFault_cons_iff]
      simp only [List.forall_mem_cons, firstFault_and_iff, shifted, List.length_nil, Nat.add_zero,
        unlisted_iff, @isListed_iff legend ordinal relative, resolve, bind_eq_error_iff]
      constructor
      · rintro (untyped | ⟨type, typed, unmodified | ⟨modifiers, modified, later | never⟩⟩)
        · exact .inl ⟨by simp, .inl untyped⟩
        · exact .inl ⟨by simp, .inr ⟨⟨type, typed⟩, unmodified⟩⟩
        · exact .inr ⟨⟨⟨type, typed⟩, modifiers, modified⟩, ih.mp later⟩
        · simp [pure, Except.pure] at never
      · rintro (⟨-, untyped | ⟨⟨type, typed⟩, unmodified⟩⟩ |
          ⟨⟨⟨type, typed⟩, modifiers, modified⟩, later⟩)
        · exact .inl untyped
        · exact .inr ⟨type, typed, .inl unmodified⟩
        · exact .inr ⟨type, typed, .inr ⟨modifiers, modified, .inl (ih.mpr later)⟩⟩

/-! ## Places of tokens -/

/-- Where a token is counted from: the start of the last token in front of it, or else a place to
begin with. -/
def origin (place : Nat × Nat) (before : List Token) : Nat × Nat :=
  (before.getLast?.map fun previous => (previous.line, previous.start)).getD place

@[simp] theorem origin_nil (place : Nat × Nat) : origin place [] = place := rfl

theorem origin_cons (place : Nat × Nat) (token : Token) (before : List Token) :
    origin place (token :: before) = origin (token.line, token.start) before := by
  unfold origin
  rw [List.getLast?_cons]
  cases before.getLast? <;> rfl

theorem origin_concat (place : Nat × Nat) (before : List Token) (token : Token) :
    origin place (before ++ [token]) = (token.line, token.start) := by
  simp [origin]

/-- What the run says of one token: how it comes from its group and from the token in front. -/
theorem exists_relative_of_resolve_append {relatives : List RelativeToken}
    {before after : List Token} {token : Token}
    (run : resolve legend ordinal line start relatives = .ok (before ++ token :: after)) :
    ∃ relative, relatives[before.length]? = some relative ∧
      relative.Places (origin (line, start) before).1 (origin (line, start) before).2 token ∧
      legend.type? relative.type.toNat = some token.type ∧
      token.modifiers = .ofList ((setBits relative.modifiers).filterMap legend.modifier?) := by
  induction before generalizing ordinal line start relatives with
  | nil =>
      cases relatives with
      | nil => cases run
      | cons relative rest =>
          obtain ⟨_, others, same, places, typed, modified, -⟩ := resolve_cons_iff.mp run
          obtain ⟨rfl, rfl⟩ := List.cons.inj same
          exact ⟨relative, rfl, places, resolveType_eq_ok_iff.mp typed,
            (resolveModifiers_eq_ok_iff.mp modified).2⟩
  | cons previous before ih =>
      cases relatives with
      | nil => cases run
      | cons relative rest =>
          obtain ⟨_, others, same, -, -, -, tail⟩ := resolve_cons_iff.mp run
          obtain ⟨rfl, rfl⟩ := List.cons.inj same
          rw [origin_cons]
          exact ih tail

theorem exists_relative_of_getElem? {relatives : List RelativeToken} {tokens : List Token}
    (run : resolve legend ordinal line start relatives = .ok tokens) {k : Nat} {token : Token}
    (found : tokens[k]? = some token) :
    ∃ relative, relatives[k]? = some relative ∧
      relative.Places (origin (line, start) (tokens.take k)).1
        (origin (line, start) (tokens.take k)).2 token ∧
      legend.type? relative.type.toNat = some token.type ∧
      token.modifiers = .ofList ((setBits relative.modifiers).filterMap legend.modifier?) := by
  obtain ⟨inside, rfl⟩ := List.getElem?_eq_some_iff.mp found
  have split : tokens.take k ++ tokens[k] :: tokens.drop (k + 1) = tokens := by
    rw [List.getElem_cons_drop, List.take_append_drop]
  have told := exists_relative_of_resolve_append (split ▸ run)
  rwa [List.length_take_of_le (Nat.le_of_lt inside)] at told

/-! ## Groups by their numbers -/

/-- Group `k` of a stream. -/
def groupAt (stream : List UInt32) (k : Nat) : RelativeToken where
  deltaLine := stream.getD (stride * k) 0
  deltaStart := stream.getD (stride * k + 1) 0
  length := stream.getD (stride * k + 2) 0
  type := stream.getD (stride * k + 3) 0
  modifiers := stream.getD (stride * k + 4) 0

theorem getElem?_groups (stream : List UInt32) (k : Nat) :
    (groups stream)[k]? = if k < stream.length / stride then some (groupAt stream k) else none := by
  fun_induction groups stream generalizing k with
  | case1 deltaLine deltaStart length type modifiers rest ih =>
      have count :
          (deltaLine :: deltaStart :: length :: type :: modifiers :: rest).length / stride =
            rest.length / stride + 1 := by
        simp only [List.length_cons, stride]
        omega
      rw [count]
      cases k with
      | zero => simp [groupAt]
      | succ k =>
          have shifted : groupAt (deltaLine :: deltaStart :: length :: type :: modifiers :: rest)
              (k + 1) = groupAt rest k := by
            simp [groupAt, stride, Nat.mul_add]
          rw [List.getElem?_cons_succ, ih, shifted]
          simp
  | case2 stream short =>
      have few : stream.length < stride := by
        by_contra enough
        rcases stream with _ | ⟨a, _ | ⟨b, _ | ⟨c, _ | ⟨d, _ | ⟨e, rest⟩⟩⟩⟩⟩
        all_goals simp [stride] at enough
        exact short a b c d e rest rfl
      simp [Nat.div_eq_of_lt few]

theorem length_groups (stream : List UInt32) : (groups stream).length = stream.length / stride := by
  refine eq_of_forall_ge_iff fun k => ?_
  rw [← List.getElem?_eq_none_iff, getElem?_groups]
  split <;> simp_all

theorem getElem?_groups_eq_some_iff {stream : List UInt32} {k : Nat} {relative : RelativeToken} :
    (groups stream)[k]? = some relative ↔
      k < stream.length / stride ∧ groupAt stream k = relative := by
  rw [getElem?_groups]
  split <;> simp_all

theorem forall_mem_take_groups_iff {stream : List UInt32} {k : Nat}
    (inside : k ≤ stream.length / stride) {p : RelativeToken → Prop} :
    (∀ relative ∈ (groups stream).take k, p relative) ↔ ∀ j < k, p (groupAt stream j) := by
  constructor
  · intro each j less
    have found : (groups stream)[j]? = some (groupAt stream j) :=
      getElem?_groups_eq_some_iff.mpr ⟨by omega, rfl⟩
    rw [← List.getElem?_take_of_lt less] at found
    exact each _ (List.mem_of_getElem? found)
  · intro each relative member
    obtain ⟨j, found⟩ := List.mem_iff_getElem?.mp member
    rw [List.getElem?_take] at found
    split at found
    · next less =>
        obtain ⟨-, rfl⟩ := getElem?_groups_eq_some_iff.mp found
        exact each j less
    · cases found

/-- The lines that the groups up to group `k` go down. -/
def lineAt (stream : List UInt32) (k : Nat) : Nat :=
  ∑ i ∈ Finset.range (k + 1), (groupAt stream i).deltaLine.toNat

/-- The last group up to group `k` that goes down, or the first group. -/
def rowAt (stream : List UInt32) (k : Nat) : Nat :=
  Nat.findGreatest (fun i => (groupAt stream i).deltaLine ≠ 0) k

/-- The units that the groups of one line go right, up to group `k`. -/
def startAt (stream : List UInt32) (k : Nat) : Nat :=
  ∑ i ∈ Finset.Icc (rowAt stream k) k, (groupAt stream i).deltaStart.toNat

theorem lineAt_succ (stream : List UInt32) (k : Nat) :
    lineAt stream (k + 1) = lineAt stream k + (groupAt stream (k + 1)).deltaLine.toNat :=
  Finset.sum_range_succ _ (k + 1)

/-- A group that goes down starts anew, any other one goes on from where the last one started. -/
theorem startAt_succ (stream : List UInt32) (k : Nat) :
    startAt stream (k + 1) =
      if (groupAt stream (k + 1)).deltaLine = 0 then
        startAt stream k + (groupAt stream (k + 1)).deltaStart.toNat
      else (groupAt stream (k + 1)).deltaStart.toNat := by
  unfold startAt rowAt
  split
  · next stays =>
      have before := Nat.findGreatest_le (P := fun i => (groupAt stream i).deltaLine ≠ 0) k
      rw [Nat.findGreatest_of_not (by simpa using stays),
        Finset.sum_Icc_succ_top (Nat.le_succ_of_le before)]
  · next moves =>
      rw [Nat.findGreatest_eq moves, Finset.Icc_self, Finset.sum_singleton]

example : startAt [1, 4, 1, 0, 0, 0, 2, 1, 0, 0, 0, 3, 1, 0, 0] 2 = 9 := by decide

/-- What it is for a token to be what group `k` of a stream says. -/
structure IsTokenAt (stream : List UInt32) (legend : Legend) (k : Nat) (token : Token) : Prop where
  line_eq : token.line = lineAt stream k
  start_eq : token.start = startAt stream k
  length_eq : token.length = (groupAt stream k).length.toNat
  type_eq : legend.type? (groupAt stream k).type.toNat = some token.type
  /-- The names of the bits that are set, lowest bit first, each name where it comes first. -/
  modifiers_eq : token.modifiers.names = (((List.range 32).filter fun bit =>
    (groupAt stream k).modifiers.toNat.testBit bit).filterMap legend.modifier?).eraseDups

/-- What it is for tokens to be what a stream says, group by group. -/
structure IsReading (stream : List UInt32) (legend : Legend) (tokens : List Token) : Prop where
  length_eq : stride * tokens.length = stream.length
  isTokenAt : ∀ k token, tokens[k]? = some token → IsTokenAt stream legend k token

/-- The place that the groups up to group `k` lead to is the place of token `k`. -/
theorem place_of_resolve {stream : List UInt32} {tokens : List Token}
    (run : resolve legend 0 0 0 (groups stream) = .ok tokens) {k : Nat} {token : Token}
    (found : tokens[k]? = some token) :
    token.line = lineAt stream k ∧ token.start = startAt stream k := by
  -- Along the tokens: each is placed by its group, counted from the token in front of it.
  induction k generalizing token with
  | zero =>
      obtain ⟨relative, group, ⟨lineEq, startEq, -⟩, -, -⟩ := exists_relative_of_getElem? run found
      obtain ⟨-, rfl⟩ := getElem?_groups_eq_some_iff.mp group
      rw [List.take_zero, origin_nil] at lineEq startEq
      simp [lineEq, startEq, lineAt, startAt, rowAt]
  | succ k ih =>
      obtain ⟨relative, group, ⟨lineEq, startEq, -⟩, -, -⟩ := exists_relative_of_getElem? run found
      obtain ⟨-, rfl⟩ := getElem?_groups_eq_some_iff.mp group
      have inside : k < tokens.length := by
        have below := (List.getElem?_eq_some_iff.mp found).1
        omega
      obtain ⟨previousLine, previousStart⟩ := ih (List.getElem?_eq_getElem inside)
      rw [List.take_succ_eq_append_getElem inside, origin_concat, previousLine] at lineEq
      rw [List.take_succ_eq_append_getElem inside, origin_concat, previousStart] at startEq
      rw [lineAt_succ, startAt_succ]
      exact ⟨lineEq, startEq⟩

theorem isReading_of_resolve {stream : List UInt32} {tokens : List Token}
    (whole : stride ∣ stream.length)
    (run : resolve legend 0 0 0 (groups stream) = .ok tokens) : IsReading stream legend tokens where
  length_eq := by
    rw [length_of_resolve run, length_groups, Nat.mul_div_cancel' whole]
  isTokenAt := by
    intro k token found
    obtain ⟨relative, group, ⟨-, -, length⟩, typed, modified⟩ :=
      exists_relative_of_getElem? run found
    obtain ⟨-, rfl⟩ := getElem?_groups_eq_some_iff.mp group
    obtain ⟨line, start⟩ := place_of_resolve run found
    refine ⟨line, start, length, typed, ?_⟩
    rw [modified, Modifiers.names_ofList]
    rfl

/-- What is wrong with a stream that is not read. That it does not divide into groups comes before
all that is wrong inside of them. -/
inductive IsMalformed (stream : List UInt32) (legend : Legend) : Fault → Prop
  /-- The stream ends behind `position`, its last multiple of the stride, and inside a group. -/
  | ragged {position : Nat} : stride ∣ position → position < stream.length →
      stream.length < position + stride →
      IsMalformed stream legend (.malformedStream position (.ragged stream.length stride))
  /-- Group `k` is the first one that is not listed. -/
  | unlisted {k : Nat} {fault : Fault} : stride ∣ stream.length → k < stream.length / stride →
      (∀ j < k, (groupAt stream j).IsListed legend) →
      (groupAt stream k).Unlisted legend k fault → IsMalformed stream legend fault

theorem decode_of_ragged {stream : List UInt32} (ragged : ¬ stride ∣ stream.length) :
    decode stream legend = .error
      (.malformedStream (stream.length - stream.length % stride) (.ragged stream.length stride)) :=
  if_pos (mt Nat.dvd_of_mod_eq_zero ragged)

theorem decode_of_whole {stream : List UInt32} (whole : stride ∣ stream.length) :
    decode stream legend = resolve legend 0 0 0 (groups stream) :=
  if_neg (not_not.mpr (Nat.mod_eq_zero_of_dvd whole))

theorem isMalformed_iff_of_ragged {stream : List UInt32} (ragged : ¬ stride ∣ stream.length) :
    IsMalformed stream legend fault ↔ fault =
      .malformedStream (stream.length - stream.length % stride) (.ragged stream.length stride) := by
  constructor
  · intro malformed
    cases malformed with
    | @ragged position divides before behind =>
        have last : position = stream.length - stream.length % stride := by
          unfold stride at divides behind ⊢
          omega
        rw [last]
    | unlisted whole => exact absurd whole ragged
  · rintro rfl
    unfold stride at ragged
    refine .ragged ?_ ?_ ?_ <;> unfold stride <;> omega

theorem isMalformed_iff_of_whole {stream : List UInt32} (whole : stride ∣ stream.length) :
    IsMalformed stream legend fault ↔ resolve legend 0 0 0 (groups stream) = .error fault := by
  have front : ∀ {k}, k < stream.length / stride → ((groups stream).take k).length = k := by
    intro k inside
    rw [← length_groups] at inside
    exact List.length_take_of_le (Nat.le_of_lt inside)
  rw [resolve_eq_error_iff, firstFault_iff_getElem?]
  constructor
  · intro malformed
    cases malformed with
    | ragged divides before behind =>
        unfold stride at divides whole behind
        omega
    | unlisted _ inside listed unlisted =>
        refine ⟨_, _, getElem?_groups_eq_some_iff.mpr ⟨inside, rfl⟩,
          (forall_mem_take_groups_iff (Nat.le_of_lt inside)).mpr listed, ?_⟩
        rwa [front inside, Nat.zero_add]
  · rintro ⟨k, relative, found, listed, unlisted⟩
    obtain ⟨inside, rfl⟩ := getElem?_groups_eq_some_iff.mp found
    rw [front inside, Nat.zero_add] at unlisted
    exact .unlisted whole inside
      ((forall_mem_take_groups_iff (Nat.le_of_lt inside)).mp listed) unlisted

theorem decode_eq_error_iff {stream : List UInt32} :
    decode stream legend = .error fault ↔ IsMalformed stream legend fault := by
  by_cases whole : stride ∣ stream.length
  · rw [decode_of_whole whole, isMalformed_iff_of_whole whole]
  · rw [decode_of_ragged whole, isMalformed_iff_of_ragged whole, Except.error.injEq, eq_comm]

theorem decode_eq_ok_iff {stream : List UInt32} {tokens : List Token} :
    decode stream legend = .ok tokens ↔
      stride ∣ stream.length ∧ resolve legend 0 0 0 (groups stream) = .ok tokens := by
  by_cases whole : stride ∣ stream.length
  · rw [decode_of_whole whole, and_iff_right whole]
  · rw [decode_of_ragged whole]
    exact iff_of_false nofun fun divides => whole divides.1

/-- A stream is read if and only if it divides into groups that are all listed. What is read are the
tokens of its groups, and what is reported else is the first thing that is wrong. -/
theorem decode_isReading (stream : List UInt32) (legend : Legend) :
    ((∃ tokens, decode stream legend = .ok tokens) ↔
      stride ∣ stream.length ∧ ∀ k < stream.length / stride, (groupAt stream k).IsListed legend) ∧
    (∀ tokens, decode stream legend = .ok tokens → IsReading stream legend tokens) ∧
    ∀ fault, decode stream legend = .error fault ↔ IsMalformed stream legend fault := by
  refine ⟨?_, ?_, fun fault => decode_eq_error_iff⟩
  · simp only [decode_eq_ok_iff, exists_and_left, resolve_isOk_iff]
    rw [← forall_mem_take_groups_iff (Nat.le_refl _),
      List.take_of_length_le (by rw [length_groups])]
  · intro tokens run
    obtain ⟨whole, resolved⟩ := decode_eq_ok_iff.mp run
    exact isReading_of_resolve whole resolved

end Wire

end TokenMarkup
