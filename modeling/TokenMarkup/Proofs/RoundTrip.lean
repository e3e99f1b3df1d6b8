import TokenMarkup.Proofs.Decode
import TokenMarkup.Proofs.LegendNames

/-!
# Streams there and back

`RelativeToken.Places` says how the numbers of a relative token and an absolute place belong
together. Decoding and encoding both step along it (`resolve_cons_iff`, `relate_cons_iff`), so that
each undoes the other up to the choice of names:

* `Wire.decode_encode`: what was encoded is decoded to the same tokens, with their modifiers sorted
  by the legend;
* `Wire.encode_decode`: what was decoded is encoded to the same stream, with every name at its first
  place in the legend, and from then on nothing changes any more.
-/

namespace TokenMarkup

/-! ## Places -/

/-- Whether a relative token, coming behind one that starts at `start` of the line `line`, has the
place and the length of a token. -/
def RelativeToken.Places (line start : Nat) (relative : RelativeToken) (token : Token) : Prop :=
  token.line = line + relative.deltaLine.toNat ∧
    token.start = (if relative.deltaLine = 0 then start + relative.deltaStart.toNat
      else relative.deltaStart.toNat) ∧
    token.length = relative.length.toNat

/-- A token with its modifiers sorted by a legend. -/
def Token.sortedBy (legend : Legend) (token : Token) : Token :=
  { token with modifiers := token.modifiers.sortedBy legend }

theorem Token.listAgrees_sortedBy {legend : Legend} {tokens : List Token}
    (distinct : ∀ token ∈ tokens, token.modifiers.names.Nodup) :
    listAgrees (tokens.map (sortedBy legend)) tokens ∧
      listAgrees tokens (tokens.map (sortedBy legend)) := by
  induction tokens with
  | nil => exact ⟨rfl, rfl⟩
  | cons token rest ih =>
      rw [List.forall_mem_cons] at distinct
      have perm := @Modifiers.sortedBy_perm legend _ distinct.1
      have forth := Modifiers.agrees_of_perm perm
      have back := Modifiers.agrees_of_perm perm.symm
      simp [listAgrees, agrees, sortedBy, forth, back, ih distinct.2]

/-- What it is for a relative token to say the same as another one by the first places of names in
a legend. -/
structure RelativeToken.IsCanonical (legend : Legend) (relative result : RelativeToken) :
    Prop where
  deltaLine_eq : result.deltaLine = relative.deltaLine
  deltaStart_eq : result.deltaStart = relative.deltaStart
  length_eq : result.length = relative.length
  type_first : ∃ name, legend.type? relative.type.toNat = some name ∧
    FirstAt legend.types name result.type.toNat
  modifiers_named : ∀ bit, relative.modifiers.toNat.testBit bit →
    ∃ name, legend.modifier? bit = some name
  modifiers_first : ∀ place, result.modifiers.toNat.testBit place ↔
    ∃ bit name, relative.modifiers.toNat.testBit bit ∧ legend.modifier? bit = some name ∧
      FirstAt legend.modifiers name place

namespace RelativeToken.IsCanonical

variable {legend : Legend} {relative result : RelativeToken}

/-- Where all names stand at their first places already there is nothing to change. -/
theorem eq_of_first (canonical : IsCanonical legend relative result)
    (type : ∀ name, legend.type? relative.type.toNat = some name →
      FirstAt legend.types name relative.type.toNat)
    (bits : ∀ bit name, relative.modifiers.toNat.testBit bit → legend.modifier? bit = some name →
      FirstAt legend.modifiers name bit) : result = relative := by
  have typeEq : result.type = relative.type := by
    obtain ⟨name, found, first⟩ := canonical.type_first
    exact UInt32.toNat_inj.mp (first.unique (type name found))
  have modifiersEq : result.modifiers = relative.modifiers := by
    apply Wire.eq_of_testBit_iff
    intro place
    rw [canonical.modifiers_first]
    constructor
    · rintro ⟨bit, name, isSet, found, first⟩
      rwa [first.unique (bits bit name isSet found)]
    · intro isSet
      obtain ⟨name, found⟩ := canonical.modifiers_named place isSet
      exact ⟨place, name, isSet, found, bits place name isSet found⟩
  cases result
  cases relative
  obtain ⟨deltaLine_eq, deltaStart_eq, length_eq, -, -, -⟩ := canonical
  simp_all

theorem places {line start : Nat} {token : Token} (canonical : IsCanonical legend relative result)
    (places : relative.Places line start token) : result.Places line start token := by
  rw [Places, canonical.deltaLine_eq, canonical.deltaStart_eq, canonical.length_eq]
  exact places

theorem eq_of_nodup (types : legend.types.Nodup) (modifiers : legend.modifiers.Nodup)
    (canonical : IsCanonical legend relative result) : result = relative :=
  canonical.eq_of_first (fun _ found => .of_nodup types found)
    (fun _ _ _ found => .of_nodup modifiers found)

/-- What is canonical stays as it is. -/
theorem fixed {result' : RelativeToken} (canonical : IsCanonical legend relative result)
    (again : IsCanonical legend result result') : result' = result := by
  apply again.eq_of_first
  · intro name found
    obtain ⟨name', -, first⟩ := canonical.type_first
    have same : some name' = some name := first.1.symm.trans found
    exact Option.some.inj same ▸ first
  · intro bit name isSet found
    obtain ⟨_, name', -, -, first⟩ := (canonical.modifiers_first bit).mp isSet
    have same : some name' = some name := first.1.symm.trans found
    exact Option.some.inj same ▸ first

theorem forall₂_of_nodup {relatives results : List RelativeToken} (types : legend.types.Nodup)
    (modifiers : legend.modifiers.Nodup)
    (canonical : List.Forall₂ (IsCanonical legend) relatives results) : results = relatives := by
  induction canonical with
  | nil => rfl
  | cons first _ ih => rw [first.eq_of_nodup types modifiers, ih]

theorem forall₂_fixed {relatives results results' : List RelativeToken}
    (canonical : List.Forall₂ (IsCanonical legend) relatives results)
    (again : List.Forall₂ (IsCanonical legend) results results') : results' = results := by
  induction canonical generalizing results' with
  | nil =>
      cases again
      rfl
  | cons first _ ih =>
      cases again with
      | cons first' rest' => rw [first.fixed first', ih rest']

end RelativeToken.IsCanonical

namespace Wire

variable {legend : Legend} {ordinal line start : Nat}

theorem entry_eq_ok_iff {value position : Nat} {result : UInt32} :
    entry value position = .ok result ↔ result.toNat = value := by
  rw [entry]
  split
  · next small =>
      rw [Except.ok.injEq]
      constructor
      · rintro rfl
        exact UInt32.toNat_ofNat_of_lt' small
      · rintro rfl
        exact UInt32.ofNat_toNat
  · next large =>
      have bound := result.toNat_lt_size
      simp only [reduceCtorEq, false_iff]
      omega

theorem typeEntry_eq_ok_iff {name : String} {result : UInt32} :
    typeEntry legend ordinal name = .ok result ↔
      ∃ index, FirstAt legend.types name index ∧ UInt32.ofNat index = result := by
  simp only [← Legend.typeIndex?_eq_some_iff, typeEntry]
  split <;> simp_all

theorem resolveType_eq_ok_iff {index : UInt32} {name : String} :
    resolveType legend ordinal index = .ok name ↔ legend.type? index.toNat = some name := by
  rw [resolveType]
  split <;> simp_all

theorem resolve_cons_iff {relative : RelativeToken} {rest : List RelativeToken}
    {tokens : List Token} :
    resolve legend ordinal line start (relative :: rest) = .ok tokens ↔
      ∃ token others, tokens = token :: others ∧ relative.Places line start token ∧
        resolveType legend ordinal relative.type = .ok token.type ∧
        resolveModifiers legend ordinal relative.modifiers = .ok token.modifiers ∧
        resolve legend (ordinal + 1) token.line token.start rest = .ok others := by
  rw [resolve_cons_eq_ok_iff]
  constructor
  · rintro ⟨type, modifiers, others, typed, modified, run, rfl⟩
    exact ⟨_, others, rfl, ⟨rfl, rfl, rfl⟩, typed, modified, run⟩
  · rintro ⟨⟨_, _, _, type, modifiers⟩, others, rfl, ⟨rfl, rfl, rfl⟩, typed, modified, run⟩
    exact ⟨type, modifiers, others, typed, modified, run, rfl⟩

theorem length_of_resolve {relatives : List RelativeToken} {tokens : List Token}
    (run : resolve legend ordinal line start relatives = .ok tokens) :
    tokens.length = relatives.length := by
  induction relatives generalizing ordinal line start tokens with
  | nil =>
      cases run
      rfl
  | cons relative rest ih =>
      obtain ⟨token, others, rfl, -, -, -, tail⟩ := resolve_cons_iff.mp run
      rw [List.length_cons, List.length_cons, ih tail]

/-- The numbers that encoding writes are those of the token's place. -/
theorem places_iff {relative : RelativeToken} {token : Token} :
    relative.Places line start token ↔
      ¬ (token.line < line ∨ token.line = line ∧ token.start < start) ∧
      relative.deltaLine.toNat = token.line - line ∧
      relative.deltaStart.toNat =
        (if token.line - line = 0 then token.start - start else token.start) ∧
      relative.length.toNat = token.length := by
  have same : relative.deltaLine = 0 ↔ relative.deltaLine.toNat = 0 := UInt32.toNat_inj.symm
  simp only [RelativeToken.Places, same]
  split
  · split <;> omega
  · split <;> omega

theorem relate_cons_iff {token : Token} {rest : List Token} {relatives : List RelativeToken} :
    relate legend ordinal line start (token :: rest) = .ok relatives ↔
      ∃ relative others, relatives = relative :: others ∧ relative.Places line start token ∧
        typeEntry legend ordinal token.type = .ok relative.type ∧
        modifiersEntry legend ordinal token.modifiers = .ok relative.modifiers ∧
        relate legend (ordinal + 1) token.line token.start rest = .ok others := by
  rw [relate]
  by_cases behind : token.line < line ∨ token.line = line ∧ token.start < start
  · rw [if_pos behind]
    refine iff_of_false nofun ?_
    rintro ⟨relative, others, -, places, -⟩
    exact (places_iff.mp places).1 behind
  · rw [if_neg behind]
    simp only [bind_eq_ok_iff, entry_eq_ok_iff]
    constructor
    · rintro ⟨type, typed, modifiers, modified, deltaLine, lineEq, deltaStart, startEq, length,
        lengthEq, others, run, same⟩
      cases same
      exact ⟨_, others, rfl, places_iff.mpr ⟨behind, lineEq, startEq, lengthEq⟩, typed, modified,
        run⟩
    · rintro ⟨relative, others, rfl, places, typed, modified, run⟩
      obtain ⟨-, lineEq, startEq, lengthEq⟩ := places_iff.mp places
      exact ⟨_, typed, _, modified, _, lineEq, _, startEq, _, lengthEq, others, run, rfl⟩

theorem groups_flatten (relatives : List RelativeToken) :
    groups (flatten relatives) = relatives := by
  induction relatives with
  | nil => rfl
  | cons relative rest ih =>
      rw [flatten, List.flatMap_cons, ← flatten]
      simp [groups, ih]

theorem length_flatten (relatives : List RelativeToken) :
    (flatten relatives).length = stride * relatives.length := by
  induction relatives with
  | nil => rfl
  | cons relative rest ih =>
      rw [flatten, List.flatMap_cons, ← flatten, List.length_append, ih]
      simp [stride]
      omega

theorem flatten_groups (stream : List UInt32) (whole : stream.length % stride = 0) :
    flatten (groups stream) = stream := by
  fun_induction groups stream with
  | case1 deltaLine deltaStart length type modifiers rest ih =>
      have wholeRest : rest.length % stride = 0 := by
        simp only [stride, List.length_cons] at whole ⊢
        omega
      rw [flatten, List.flatMap_cons, ← flatten, ih wholeRest]
      rfl
  | case2 stream short =>
      rcases stream with _ | ⟨a, _ | ⟨b, _ | ⟨c, _ | ⟨d, _ | ⟨e, rest⟩⟩⟩⟩⟩
      · rfl
      all_goals simp [stride] at whole
      exact absurd rfl (short a b c d e rest)

theorem decode_flatten (relatives : List RelativeToken) (legend : Legend) :
    decode (flatten relatives) legend = resolve legend 0 0 0 relatives := by
  rw [decode, if_neg (by simp [length_flatten]), groups_flatten]

/-- A stream that is decoded divides into relative tokens. -/
theorem exists_flatten_of_decode {stream : List UInt32} {tokens : List Token}
    (run : decode stream legend = .ok tokens) :
    ∃ relatives, stream = flatten relatives ∧ resolve legend 0 0 0 relatives = .ok tokens := by
  rw [decode] at run
  split at run
  · cases run
  · next whole =>
      exact ⟨groups stream, (flatten_groups stream (by simpa using whole)).symm, run⟩

/-! ## Decoding what was encoded -/

theorem resolve_relate {tokens : List Token} {relatives : List RelativeToken}
    (run : relate legend ordinal line start tokens = .ok relatives)
    (room : ∀ token ∈ tokens, ∀ index, FirstAt legend.types token.type index →
      index < UInt32.size) :
    resolve legend ordinal line start relatives = .ok (tokens.map (Token.sortedBy legend)) := by
  induction tokens generalizing ordinal line start relatives with
  | nil =>
      cases run
      rfl
  | cons token rest ih =>
      obtain ⟨relative, others, rfl, places, typed, modified, tail⟩ := relate_cons_iff.mp run
      rw [List.forall_mem_cons] at room
      obtain ⟨index, first, written⟩ := typeEntry_eq_ok_iff.mp typed
      have read : legend.type? relative.type.toNat = some token.type := by
        rw [← written, UInt32.toNat_ofNat_of_lt' (room.1 index first)]
        exact first.1
      exact resolve_cons_iff.mpr ⟨token.sortedBy legend, _, rfl, places,
        resolveType_eq_ok_iff.mpr read, resolveModifiers_modifiersEntry modified, ih tail room.2⟩

/-- What was encoded is decoded to the same tokens, with the modifiers of each one sorted by the
legend. For tokens that list no modifier twice this is agreement. -/
theorem decode_encode {tokens : List Token} {stream : List UInt32} {legend : Legend}
    (room : legend.types.length < UInt32.size) (run : encode tokens legend = .ok stream) :
    decode stream legend = .ok (tokens.map (Token.sortedBy legend)) ∧
    ((∀ token ∈ tokens, token.modifiers.names.Nodup) →
      Token.listAgrees (tokens.map (Token.sortedBy legend)) tokens ∧
        Token.listAgrees tokens (tokens.map (Token.sortedBy legend))) := by
  obtain ⟨relatives, related, rfl⟩ := map_eq_ok_iff.mp run
  refine ⟨?_, Token.listAgrees_sortedBy⟩
  rw [decode_flatten]
  apply resolve_relate related
  intro token _ index first
  obtain ⟨inside, -⟩ := List.getElem?_eq_some_iff.mp first.1
  exact Nat.lt_trans inside room

/-- A type and a modifier that the legend lists twice, and modifiers in a wrong order with a
repeat. -/
theorem decode_encode_repeats :
    encode [⟨0, 2, 1, "b", ⟨["n", "m", "n"]⟩⟩, ⟨3, 1, 4, "a", .empty⟩]
      ⟨["a", "b", "b"], ["m", "n", "m"]⟩ = .ok [0, 2, 1, 1, 3, 3, 1, 4, 0, 0] ∧
    decode [0, 2, 1, 1, 3, 3, 1, 4, 0, 0] ⟨["a", "b", "b"], ["m", "n", "m"]⟩ =
      .ok [⟨0, 2, 1, "b", ⟨["m", "n"]⟩⟩, ⟨3, 1, 4, "a", .empty⟩] := by
  have run : encode [⟨0, 2, 1, "b", ⟨["n", "m", "n"]⟩⟩, ⟨3, 1, 4, "a", .empty⟩]
      ⟨["a", "b", "b"], ["m", "n", "m"]⟩ = .ok [0, 2, 1, 1, 3, 3, 1, 4, 0, 0] := by
    decide +kernel
  have sorted : (⟨["m", "n"]⟩ : Modifiers) =
      Modifiers.sortedBy ⟨["a", "b", "b"], ["m", "n", "m"]⟩ ⟨["n", "m", "n"]⟩ :=
    Modifiers.mk_eq_sortedBy (by decide) (by simp) (by decide)
  refine ⟨run, (decode_encode (by decide) run).1.trans ?_⟩
  rw [sorted]
  simp [Token.sortedBy, Modifiers.sortedBy, Modifiers.empty]

/-! ## Encoding what was decoded -/

/-- What was read of a relative token is written again, as its canonical form. -/
theorem exists_isCanonical {relative : RelativeToken} {type : String} {modifiers : Modifiers}
    (typed : resolveType legend ordinal relative.type = .ok type)
    (modified : resolveModifiers legend ordinal relative.modifiers = .ok modifiers) :
    ∃ result, RelativeToken.IsCanonical legend relative result ∧
      typeEntry legend ordinal type = .ok result.type ∧
      modifiersEntry legend ordinal modifiers = .ok result.modifiers := by
  rw [resolveType_eq_ok_iff] at typed
  have named := (resolveModifiers_eq_ok_iff.mp modified).1
  have member := fun name => @mem_resolveModifiers_iff _ _ _ _ name modified
  -- First places are no later than the places that were read, so there is room for them.
  obtain ⟨index, le, first⟩ := exists_firstAt typed
  have small : index < UInt32.size := Nat.lt_of_le_of_lt le relative.type.toNat_lt_size
  have room : ∀ name ∈ modifiers.names, ∃ bit < 32, FirstAt legend.modifiers name bit := by
    intro name inSet
    obtain ⟨bit, isSet, found⟩ := (member name).mp inSet
    obtain ⟨place, le, firstAt⟩ := exists_firstAt found
    exact ⟨place, Nat.lt_of_le_of_lt le (lt_of_testBit isSet), firstAt⟩
  obtain ⟨entry, written, isSet⟩ := @modifiersEntry_eq_ok legend ordinal modifiers room
  refine ⟨⟨relative.deltaLine, relative.deltaStart, relative.length, UInt32.ofNat index, entry⟩,
    ⟨rfl, rfl, rfl, ⟨type, typed, ?_⟩, fun bit set => named bit (mem_setBits.mpr set), ?_⟩,
    typeEntry_eq_ok_iff.mpr ⟨index, first, rfl⟩, written⟩
  · rwa [UInt32.toNat_ofNat_of_lt' small]
  · intro place
    rw [isSet]
    constructor
    · rintro ⟨name, inSet, firstAt⟩
      obtain ⟨bit, set, found⟩ := (member name).mp inSet
      exact ⟨bit, name, set, found, firstAt⟩
    · rintro ⟨bit, name, set, found, firstAt⟩
      exact ⟨name, (member name).mpr ⟨bit, set, found⟩, firstAt⟩

theorem relate_resolve {relatives : List RelativeToken} {tokens : List Token}
    (run : resolve legend ordinal line start relatives = .ok tokens) :
    ∃ results, relate legend ordinal line start tokens = .ok results ∧
      List.Forall₂ (RelativeToken.IsCanonical legend) relatives results := by
  induction relatives generalizing ordinal line start tokens with
  | nil =>
      cases run
      exact ⟨[], rfl, .nil⟩
  | cons relative rest ih =>
      obtain ⟨token, others, rfl, places, typed, modified, tail⟩ := resolve_cons_iff.mp run
      obtain ⟨result, canonical, writtenType, writtenModifiers⟩ :=
        exists_isCanonical typed modified
      obtain ⟨results, related, canonicalRest⟩ := ih tail
      exact ⟨result :: results, relate_cons_iff.mpr ⟨result, results, rfl, canonical.places places,
        writtenType, writtenModifiers, related⟩, .cons canonical canonicalRest⟩

theorem exists_relative_of_resolve {relatives : List RelativeToken} {tokens : List Token}
    (run : resolve legend ordinal line start relatives = .ok tokens) :
    ∀ token ∈ tokens, ∃ (ordinal : Nat) (relative : RelativeToken),
      resolveType legend ordinal relative.type = .ok token.type ∧
        resolveModifiers legend ordinal relative.modifiers = .ok token.modifiers := by
  induction relatives generalizing ordinal line start tokens with
  | nil =>
      cases run
      simp
  | cons relative rest ih =>
      obtain ⟨token, others, rfl, -, typed, modified, tail⟩ := resolve_cons_iff.mp run
      exact List.forall_mem_cons.mpr ⟨⟨ordinal, relative, typed, modified⟩, ih tail⟩

/-- What was decoded is encoded to the same stream, with every name at its first place. That stream
is decoded to tokens that agree with the first ones, and encoded again to itself. -/
theorem encode_decode {stream : List UInt32} {legend : Legend} {tokens : List Token}
    (run : decode stream legend = .ok tokens) :
    tokens.Pairwise Token.StartsBy ∧
    ∃ wire, encode tokens legend = .ok wire ∧
      (∃ relatives results, stream = flatten relatives ∧ wire = flatten results ∧
        List.Forall₂ (RelativeToken.IsCanonical legend) relatives results) ∧
      (legend.types.Nodup → legend.modifiers.Nodup → wire = stream) ∧
      ∃ again, decode wire legend = .ok again ∧
        (Token.listAgrees again tokens ∧ Token.listAgrees tokens again) ∧
        encode again legend = .ok wire := by
  refine ⟨List.isChain_iff_pairwise.mp (decode_sorted run), ?_⟩
  obtain ⟨relatives, rfl, resolved⟩ := exists_flatten_of_decode run
  obtain ⟨results, related, canonical⟩ := relate_resolve resolved
  have room : ∀ token ∈ tokens, ∀ index, FirstAt legend.types token.type index →
      index < UInt32.size := by
    intro token member index first
    obtain ⟨_, relative, typed, -⟩ := exists_relative_of_resolve resolved token member
    obtain ⟨index', le, first'⟩ := exists_firstAt (resolveType_eq_ok_iff.mp typed)
    rw [first.unique first']
    exact Nat.lt_of_le_of_lt le relative.type.toNat_lt_size
  have distinct : ∀ token ∈ tokens, token.modifiers.names.Nodup := by
    intro token member
    obtain ⟨_, relative, -, modified⟩ := exists_relative_of_resolve resolved token member
    rw [(resolveModifiers_eq_ok_iff.mp modified).2]
    exact Modifiers.nodup_ofList _
  have resolvedAgain := resolve_relate related room
  obtain ⟨results', relatedAgain, canonical'⟩ := relate_resolve resolvedAgain
  have fixed : results' = results := RelativeToken.IsCanonical.forall₂_fixed canonical canonical'
  refine ⟨flatten results, map_eq_ok_iff.mpr ⟨results, related, rfl⟩,
    ⟨relatives, results, rfl, rfl, canonical⟩, ?_, ?_⟩
  · intro types modifiers
    rw [RelativeToken.IsCanonical.forall₂_of_nodup types modifiers canonical]
  · refine ⟨tokens.map (Token.sortedBy legend), ?_, Token.listAgrees_sortedBy distinct, ?_⟩
    · rw [decode_flatten, resolvedAgain]
    · exact map_eq_ok_iff.mpr ⟨results', relatedAgain, by rw [fixed]⟩

/-- The second of two like types and the second of two like modifiers become the first, whereupon
the modifiers are listed the other way round. -/
theorem encode_decode_repeats :
    decode [0, 2, 1, 1, 6] ⟨["a", "a"], ["m", "n", "m"]⟩ = .ok [⟨0, 2, 1, "a", ⟨["n", "m"]⟩⟩] ∧
    ∃ wire, encode [⟨0, 2, 1, "a", ⟨["n", "m"]⟩⟩] ⟨["a", "a"], ["m", "n", "m"]⟩ = .ok wire ∧
      ∃ again, decode wire ⟨["a", "a"], ["m", "n", "m"]⟩ = .ok again ∧
        Token.listAgrees again [⟨0, 2, 1, "a", ⟨["n", "m"]⟩⟩] ∧
        encode again ⟨["a", "a"], ["m", "n", "m"]⟩ = .ok wire := by
  have run : decode [0, 2, 1, 1, 6] ⟨["a", "a"], ["m", "n", "m"]⟩ =
      .ok [⟨0, 2, 1, "a", ⟨["n", "m"]⟩⟩] := by
    decide +kernel
  obtain ⟨-, wire, encoded, -, -, again, decoded, ⟨agrees, -⟩, encodedAgain⟩ := encode_decode run
  exact ⟨run, wire, encoded, again, decoded, agrees, encodedAgain⟩

end Wire

end TokenMarkup
