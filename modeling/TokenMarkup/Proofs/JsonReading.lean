import Mathlib.Data.List.Forall2
import TokenMarkup.Lexeme.Json
import TokenMarkup.Payload
import TokenMarkup.Proofs.Steps
import TokenMarkup.Token.Json

/-!
# What is read from JSON

Which JSON values give a payload, a token or a lexeme, said without the readers. A record is an
object that has its fields among its members, each once and in any order, or an array of them in
their order (`Json.IsRecord`). `Json.Reads` says that a reader accepts the values that give
something, and no others. It is proved for each kind of field and passed on to records and lists, up
to the texts of the files that a run reads: `Payload.parse_eq_ok_iff` and
`Lexemes.parse_eq_ok_iff`.
-/

namespace TokenMarkup

namespace Json

/-! ## Fields of a record -/

/-- How a value gives the fields of a record with fields `names`. -/
inductive IsRecord (names : List String) : Fields → Json → Prop
  /-- In an object members with other keys are passed over. A field may be there once. -/
  | object {members : Fields}
      (once : ((members.filter fun member => member.1 ∈ names).map Prod.fst).Nodup) :
      IsRecord names (members.filter fun member => member.1 ∈ names)
        (.object (members.map fun member => (some member.1, member.2)))
  /-- In an array the last fields may be missing. -/
  | array {items : List Json} (few : items.length ≤ names.length) :
      IsRecord names (names.zip items) (.array items)

theorem keys_zip_sublist (names : List String) (items : List Json) :
    ((names.zip items).map Prod.fst).Sublist names := by
  induction names generalizing items with
  | nil => simp
  | cons name rest ih =>
      cases items with
      | nil => simp
      | cons item items => exact (ih items).cons_cons name

theorem IsRecord.distinct {names : List String} {fields : Fields} {value : Json}
    (record : IsRecord names fields value) (different : names.Nodup) :
    (fields.map Prod.fst).Nodup := by
  cases record with
  | object once => exact once
  | array few => exact (keys_zip_sublist _ _).nodup different

/-- With no key twice, a field is looked up where it is. -/
theorem lookup_eq_some_iff_mem {fields : Fields} (distinct : (fields.map Prod.fst).Nodup)
    {name : String} {value : Json} : fields.lookup name = some value ↔ (name, value) ∈ fields := by
  induction fields with
  | nil => simp
  | cons field rest ih =>
      obtain ⟨key, content⟩ := field
      obtain ⟨first, others⟩ := List.nodup_cons.mp distinct
      rw [List.lookup_cons, List.mem_cons, Prod.mk.injEq]
      by_cases same : name = key
      · subst same
        have once : (name, value) ∉ rest := fun member =>
          first (List.mem_map.mpr ⟨_, member, rfl⟩)
        simp [once, eq_comm]
      · rw [beq_false_of_ne same]
        simp [same, ih others]

theorem lookup_eq_none_iff_not_mem {fields : Fields} {name : String} :
    fields.lookup name = none ↔ name ∉ fields.map Prod.fst := by
  rw [List.lookup_eq_none_iff, List.mem_map]
  constructor
  · rintro missing ⟨field, member, rfl⟩
    simpa using missing field member
  · intro missing field member
    have differs : name ≠ field.1 := fun same => missing ⟨field, member, same.symm⟩
    simpa using differs

/-- One member more: it is passed over, or it is a field that is not there yet. -/
theorem memberFields_cons (names : List String) (key : String) (value : Json)
    (rest : List (Literal × Json)) :
    memberFields names ((some key, value) :: rest) = do
      let others ← memberFields names rest
      if key ∈ names then
        if key ∈ others.map Prod.fst then throw .malformed
        return (key, value) :: others
      else return others := by
  rw [memberFields]
  cases memberFields names rest with
  | error => rfl
  | ok others =>
      have there : (others.lookup key).isSome = true ↔ key ∈ others.map Prod.fst := by
        rw [Option.isSome_iff_ne_none, ne_eq, lookup_eq_none_iff_not_mem, not_not]
      simp only [bind, Except.bind, List.contains_iff_mem, there]

theorem memberFields_map {names : List String} {members : Fields}
    (once : ((members.filter fun member => member.1 ∈ names).map Prod.fst).Nodup) :
    memberFields names (members.map fun member => (some member.1, member.2)) =
      .ok (members.filter fun member => member.1 ∈ names) := by
  induction members with
  | nil => rfl
  | cons member rest ih =>
      rw [List.map_cons, memberFields_cons]
      by_cases known : member.1 ∈ names
      · rw [List.filter_cons_of_pos (by simpa using known)] at once ⊢
        obtain ⟨new, others⟩ := List.nodup_cons.mp once
        rw [ih others]
        simp only [bind, Except.bind, if_pos known, if_neg new]
        rfl
      · rw [List.filter_cons_of_neg (by simpa using known)] at once ⊢
        rw [ih once]
        simp only [bind, Except.bind, if_neg known]
        rfl

theorem isRecord_of_memberFields {names : List String} {members : List (Literal × Json)}
    {fields : Fields} (read : memberFields names members = .ok fields) :
    IsRecord names fields (.object members) := by
  have keyed : ∃ keyed : Fields, members = keyed.map (fun member => (some member.1, member.2)) ∧
      fields = keyed.filter (fun member => member.1 ∈ names) ∧ (fields.map Prod.fst).Nodup := by
    induction members generalizing fields with
    | nil =>
        cases read
        exact ⟨[], rfl, rfl, List.nodup_nil⟩
    | cons member rest ih =>
        obtain ⟨key | key, value⟩ := member
        · cases read
        rw [memberFields_cons] at read
        obtain ⟨others, behind, taken⟩ := bind_eq_ok_iff.mp read
        obtain ⟨keyed, rfl, rfl, distinct⟩ := ih behind
        by_cases known : key ∈ names
        · rw [if_pos known] at taken
          split at taken
          · cases taken
          · next new =>
              cases taken
              refine ⟨(key, value) :: keyed, rfl, ?_, List.nodup_cons.mpr ⟨new, distinct⟩⟩
              rw [List.filter_cons_of_pos (by simpa using known)]
        · rw [if_neg known] at taken
          cases taken
          refine ⟨(key, value) :: keyed, rfl, ?_, distinct⟩
          rw [List.filter_cons_of_neg (by simpa using known)]
  obtain ⟨keyed, rfl, rfl, distinct⟩ := keyed
  exact .object distinct

/-- An object of fields alone. -/
theorem isRecord_object {names : List String} {fields : Fields}
    (distinct : (fields.map Prod.fst).Nodup) (known : ∀ field ∈ fields, field.1 ∈ names) :
    IsRecord names fields (.object (fields.map fun field => (some field.1, field.2))) := by
  have all : fields.filter (fun field => field.1 ∈ names) = fields :=
    List.filter_eq_self.mpr (by simpa using known)
  have record : IsRecord names _ (.object (fields.map fun field => (some field.1, field.2))) :=
    .object (by rwa [all])
  rwa [all] at record

theorem readFields_eq_ok_iff {names : List String} {fields : Fields} {value : Json} :
    readFields names value = .ok fields ↔ IsRecord names fields value := by
  constructor
  · intro read
    unfold readFields at read
    split at read
    · exact isRecord_of_memberFields read
    · split at read
      · next few =>
          cases read
          exact .array few
      · cases read
    · cases read
  · rintro (once | few)
    · exact memberFields_map once
    · exact if_pos few

/-! ## Readers -/

variable {α : Type} {reader : Json → Except Rejection α} {given : α → Json → Prop}

/-- A reader accepts the values by which something is given, and no others. -/
def Reads (reader : Json → Except Rejection α) (given : α → Json → Prop) : Prop :=
  ∀ value content, reader value = .ok content ↔ given content value

/-- Whether a value is a string with this text. -/
def IsText (text : String) (value : Json) : Prop := value = .text text

/-- Whether a value is a number below a bound, written with digits alone. -/
def IsNat (bound number : Nat) (value : Json) : Prop :=
  number < bound ∧ ∃ digits, value = .number digits ∧ digits ≠ [] ∧ (∀ c ∈ digits, c.isDigit) ∧
    ofDigits digits = number

/-- Whether a value is an array with an item for each content. -/
def IsList (given : α → Json → Prop) (contents : List α) (value : Json) : Prop :=
  ∃ items, value = .array items ∧ List.Forall₂ given contents items

/-- How a field is given that has to be there. -/
def IsField (fields : Fields) (name : String) (given : α → Json → Prop) (content : α) : Prop :=
  ∃ value, (name, value) ∈ fields ∧ given content value

/-- How a field is given that may be missing, and then stands for a default. -/
def IsOptional (fields : Fields) (name : String) (given : α → Json → Prop) (default content : α) :
    Prop :=
  name ∉ fields.map Prod.fst ∧ content = default ∨ IsField fields name given content

/-- How a content is given that there may be none of. -/
inductive IsNullable (given : α → Json → Prop) : Option α → Json → Prop
  | null : IsNullable given none .null
  | value {content : α} {value : Json} (is : given content value) :
      IsNullable given (some content) value

/-- A text of JSON for a value by which something is given. -/
def IsToldBy (given : α → Json → Prop) (content : α) (text : Text) : Prop :=
  ∃ value, parse? text = some value ∧ given content value

theorem reads_text : Reads readText IsText := by
  intro value content
  unfold readText IsText
  split <;> simp_all [text]

theorem nat?_eq_some_iff {digits : Text} {number : Nat} :
    nat? digits = some number ↔
      digits ≠ [] ∧ (∀ c ∈ digits, c.isDigit) ∧ ofDigits digits = number := by
  simp [nat?, and_assoc]

theorem reads_nat (bound : Nat) : Reads (readNat bound) (IsNat bound) := by
  intro value content
  cases value with
  | number literal =>
      have is : IsNat bound content (.number literal) ↔
          content < bound ∧ nat? literal = some content := by
        simp [IsNat, nat?_eq_some_iff]
      rw [is, readNat]
      cases found : nat? literal with
      | none => simp
      | some number => grind
  | _ => simp [readNat, IsNat]

theorem Reads.mapM_eq_ok_iff (reads : Reads reader given) {items : List Json} {contents : List α} :
    items.mapM reader = .ok contents ↔ List.Forall₂ given contents items := by
  induction items generalizing contents with
  | nil => simp [pure, Except.pure, eq_comm]
  | cons item rest ih =>
      rw [List.mapM_cons, bind_eq_ok_iff, List.forall₂_cons_right_iff]
      simp only [bind_eq_ok_iff, reads item, ih, pure, Except.pure, Except.ok.injEq]
      constructor
      · rintro ⟨content, first, others, behind, rfl⟩
        exact ⟨content, others, first, behind, rfl⟩
      · rintro ⟨content, others, first, behind, rfl⟩
        exact ⟨content, first, others, behind, rfl⟩

theorem Reads.list (reads : Reads reader given) : Reads (readList reader) (IsList given) := by
  intro value contents
  cases value with
  | array items => simp [readList, IsList, reads.mapM_eq_ok_iff]
  | _ => simp [readList, IsList]

theorem Reads.decode (reads : Reads reader given) {text : Text} {content : α} :
    Json.decode reader text = .ok content ↔ IsToldBy given content text := by
  unfold Json.decode IsToldBy
  cases parse? text with
  | none => simp
  | some value => simp [reads value content]

theorem Reads.nullable (reads : Reads reader given) (never : ∀ content, ¬ given content .null) :
    Reads (readNullable reader) (IsNullable given) := by
  intro value content
  constructor
  · intro read
    unfold readNullable at read
    split at read
    · cases read
      exact .null
    · obtain ⟨inside, found, rfl⟩ := map_eq_ok_iff.mp read
      exact .value ((reads _ _).mp found)
  · rintro (_ | is)
    · rfl
    · unfold readNullable
      split
      · exact absurd is (never _)
      · rw [(reads _ _).mpr is]
        rfl

/-- A reader of a record reads its fields, and then builds on them. -/
theorem reads_record {names : List String} {build : Fields → Except Rejection α}
    {is : Fields → α → Prop} (different : names.Nodup)
    (builds : ∀ fields : Fields, (fields.map Prod.fst).Nodup →
      ∀ content, build fields = .ok content ↔ is fields content) :
    Reads (fun value => readFields names value >>= build)
      (fun content value => ∃ fields, IsRecord names fields value ∧ is fields content) := by
  intro value content
  rw [bind_eq_ok_iff]
  refine exists_congr fun fields => ?_
  rw [readFields_eq_ok_iff]
  exact and_congr_right fun record => builds fields (record.distinct different) content

variable {fields : Fields} (distinct : (fields.map Prod.fst).Nodup) {name : String}
include distinct

theorem Reads.field (reads : Reads reader given) {content : α} :
    required fields name reader = .ok content ↔ IsField fields name given content := by
  simp only [IsField, ← lookup_eq_some_iff_mem distinct, ← reads _ content]
  unfold required
  cases fields.lookup name <;> simp

theorem Reads.optional (reads : Reads reader given) {default content : α} :
    Json.optional fields name reader default = .ok content ↔
      IsOptional fields name given default content := by
  unfold IsOptional
  rw [← reads.field distinct, ← lookup_eq_none_iff_not_mem]
  unfold Json.optional required
  cases fields.lookup name <;> simp [eq_comm]

end Json

/-! ## Payloads -/

/-- Whether a value is a record of a legend. -/
def AnnouncedLegend.IsGivenBy (legend : AnnouncedLegend) (value : Json) : Prop :=
  ∃ fields, Json.IsRecord ["tokenTypes", "tokenModifiers"] fields value ∧
    Json.IsField fields "tokenTypes" (Json.IsList Json.IsText) legend.tokenTypes ∧
    Json.IsField fields "tokenModifiers" (Json.IsList Json.IsText) legend.tokenModifiers

/-- The spellings of encodings, in lower case and without blanks around them. -/
def PositionEncoding.spellings : List (String × PositionEncoding) :=
  [("utf-8", utf8), ("utf8", utf8), ("byte", utf8), ("bytes", utf8), ("utf-16", utf16),
    ("utf16", utf16), ("utf-32", utf32), ("utf32", utf32), ("scalar", utf32), ("scalars", utf32)]

/-- Whether a name stands for an encoding: it is one of the spellings, whatever its case and the
blanks around it. -/
def PositionEncoding.IsNamed (encoding : PositionEncoding) (name : String) : Prop :=
  ∃ core, Text.IsTrimmed name.toList core ∧
    (String.ofList (core.map Char.toLower), encoding) ∈ spellings

/-- Whether a value is one of the names of an encoding. -/
def PositionEncoding.IsGivenBy (encoding : PositionEncoding) (value : Json) : Prop :=
  ∃ name, encoding.IsNamed name ∧ value = .text name

/-- Whether a value is an entry of a stream. -/
def Payload.IsEntry (entry : UInt32) (value : Json) : Prop :=
  Json.IsNat UInt32.size entry.toNat value

/-- Whether a value is a record of a payload. The legend and the encoding may be missing or null. -/
def Payload.IsGivenBy (payload : Payload) (value : Json) : Prop :=
  ∃ fields, Json.IsRecord ["legend", "positionEncoding", "data"] fields value ∧
    Json.IsOptional fields "legend" (Json.IsNullable AnnouncedLegend.IsGivenBy) none
      payload.legend ∧
    Json.IsOptional fields "positionEncoding" (Json.IsNullable PositionEncoding.IsGivenBy) none
      payload.encoding ∧
    Json.IsField fields "data" (Json.IsList Payload.IsEntry) payload.data

theorem AnnouncedLegend.reads : Json.Reads ofJson IsGivenBy := by
  refine Json.reads_record (by decide) fun fields distinct legend => ?_
  simp only [bind_eq_ok_iff, Json.reads_text.list.field distinct, pure, Except.pure,
    Except.ok.injEq]
  constructor
  · rintro ⟨types, first, modifiers, second, rfl⟩
    exact ⟨first, second⟩
  · rintro ⟨first, second⟩
    exact ⟨_, first, _, second, rfl⟩

theorem PositionEncoding.parse?_eq_some_iff {name : String} {encoding : PositionEncoding} :
    parse? name = some encoding ↔ encoding.IsNamed name := by
  unfold parse? IsNamed Text.lowercase
  simp only [← Text.trim_eq_iff, exists_eq_left']
  generalize String.ofList ((Text.trim name.toList).map Char.toLower) = spelling
  constructor
  · intro found
    split at found <;> cases found <;> decide
  · intro listed
    simp only [spellings, List.mem_cons, Prod.mk.injEq, List.not_mem_nil, or_false] at listed
    rcases listed with ⟨rfl, rfl⟩ | ⟨rfl, rfl⟩ | ⟨rfl, rfl⟩ | ⟨rfl, rfl⟩ | ⟨rfl, rfl⟩ |
      ⟨rfl, rfl⟩ | ⟨rfl, rfl⟩ | ⟨rfl, rfl⟩ | ⟨rfl, rfl⟩ | ⟨rfl, rfl⟩ <;> rfl

theorem PositionEncoding.reads : Json.Reads Json.readEncoding IsGivenBy := by
  intro value encoding
  unfold Json.readEncoding IsGivenBy
  simp only [bind_eq_ok_iff, Json.reads_text _ _, Json.IsText, ← parse?_eq_some_iff]
  refine exists_congr fun name => ?_
  cases parse? name <;> simp [pure, Except.pure, and_comm, throw, throwThe, MonadExceptOf.throw]

theorem Payload.reads_entry : Json.Reads readEntry IsEntry := by
  intro value entry
  unfold readEntry IsEntry
  rw [map_eq_ok_iff]
  simp only [Json.reads_nat _ _ _]
  constructor
  · rintro ⟨number, is, rfl⟩
    rwa [UInt32.toNat_ofNat_of_lt' is.1]
  · intro is
    exact ⟨_, is, UInt32.ofNat_toNat⟩

theorem Payload.reads : Json.Reads ofJson IsGivenBy := by
  refine Json.reads_record (by decide) fun fields distinct payload => ?_
  have legend_ne_null (legend : AnnouncedLegend) : ¬ legend.IsGivenBy .null := by
    rintro ⟨_, ⟨⟩, -⟩
  have encoding_ne_null (encoding : PositionEncoding) : ¬ encoding.IsGivenBy .null := by
    rintro ⟨_, -, ⟨⟩⟩
  simp only [bind_eq_ok_iff, (AnnouncedLegend.reads.nullable legend_ne_null).optional distinct,
    (PositionEncoding.reads.nullable encoding_ne_null).optional distinct,
    reads_entry.list.field distinct, pure, Except.pure, Except.ok.injEq]
  constructor
  · rintro ⟨legend, first, encoding, second, data, third, rfl⟩
    exact ⟨first, second, third⟩
  · rintro ⟨first, second, third⟩
    exact ⟨_, first, _, second, _, third, rfl⟩

/-- A payload is read from the texts that tell it. -/
theorem Payload.parse_eq_ok_iff {text : Text} {payload : Payload} :
    parse text = .ok payload ↔ Json.IsToldBy IsGivenBy payload text :=
  reads.decode

/-- The legend to go by when one was announced or none was. -/
def Legend.ofAnnouncement : Option AnnouncedLegend → Legend
  | some announced => ⟨announced.tokenTypes, announced.tokenModifiers⟩
  | none => .default

theorem Payload.tokenLegend_eq (payload : Payload) :
    payload.tokenLegend = .ofAnnouncement payload.legend := by
  unfold tokenLegend
  cases payload.legend <;> rfl

/-! ## Tokens -/

/-- Whether a value is an array of the names of modifiers, as they stand. -/
def Modifiers.IsGivenBy (modifiers : Modifiers) (value : Json) : Prop :=
  Json.IsList Json.IsText modifiers.names value

/-- Whether a value is a record of a token. Its modifiers may be missing. -/
def Token.IsGivenBy (token : Token) (value : Json) : Prop :=
  ∃ fields, Json.IsRecord ["line", "startChar", "length", "type", "modifiers"] fields value ∧
    Json.IsField fields "line" (Json.IsNat UInt64.size) token.line ∧
    Json.IsField fields "startChar" (Json.IsNat UInt64.size) token.start ∧
    Json.IsField fields "length" (Json.IsNat UInt64.size) token.length ∧
    Json.IsField fields "type" Json.IsText token.type ∧
    Json.IsOptional fields "modifiers" Modifiers.IsGivenBy .empty token.modifiers

theorem Token.reads_modifiers : Json.Reads readModifiers Modifiers.IsGivenBy := by
  intro value modifiers
  unfold readModifiers Modifiers.IsGivenBy
  rw [map_eq_ok_iff]
  simp only [Json.reads_text.list _ _]
  constructor
  · rintro ⟨names, is, rfl⟩
    exact is
  · intro is
    exact ⟨_, is, rfl⟩

theorem Token.reads : Json.Reads ofJson IsGivenBy := by
  refine Json.reads_record (by decide) fun fields distinct token => ?_
  simp only [bind_eq_ok_iff, (Json.reads_nat _).field distinct, Json.reads_text.field distinct,
    reads_modifiers.optional distinct, pure, Except.pure, Except.ok.injEq]
  constructor
  · rintro ⟨line, first, start, second, length, third, type, fourth, modifiers, fifth, rfl⟩
    exact ⟨first, second, third, fourth, fifth⟩
  · rintro ⟨first, second, third, fourth, fifth⟩
    exact ⟨_, first, _, second, _, third, _, fourth, _, fifth, rfl⟩

/-! ## Lexemes -/

/-- Whether a name stands for a kind. A name that no kind has stands for the unknown one. -/
inductive LexemeKind.IsNamed : LexemeKind → String → Prop
  | own (kind : LexemeKind) : IsNamed kind kind.name
  | other {name : String} (foreign : ∀ kind : LexemeKind, kind.name ≠ name) : IsNamed .unknown name

/-- How a kind is given: by a name, or by an object with this key alone and no value. -/
inductive LexemeKind.IsGivenBy (kind : LexemeKind) : Json → Prop
  | name {name : String} (named : kind.IsNamed name) : IsGivenBy kind (.text name)
  | key {name : String} (named : kind.IsNamed name) : IsGivenBy kind (.object [(some name, .null)])

/-- Whether a value is a record of a location. -/
def Location.IsGivenBy (location : Location) (value : Json) : Prop :=
  ∃ fields, Json.IsRecord ["line", "column"] fields value ∧
    Json.IsField fields "line" (Json.IsNat UInt32.size) location.line ∧
    Json.IsField fields "column" (Json.IsNat UInt32.size) location.column

/-- Whether a value is a record of a lexeme. -/
def Lexeme.IsGivenBy (lexeme : Lexeme) (value : Json) : Prop :=
  ∃ fields, Json.IsRecord ["kind", "start", "end"] fields value ∧
    Json.IsField fields "kind" LexemeKind.IsGivenBy lexeme.kind ∧
    Json.IsField fields "start" Location.IsGivenBy lexeme.start ∧
    Json.IsField fields "end" Location.IsGivenBy lexeme.stop

theorem LexemeKind.name_ofName (name : String) :
    (ofName name).name = name ∨ ofName name = unknown := by
  unfold ofName
  split <;> simp [LexemeKind.name]

theorem LexemeKind.ofName_eq_iff {name : String} {kind : LexemeKind} :
    ofName name = kind ↔ kind.IsNamed name := by
  have ofForeign {name : String} (foreign : ∀ kind : LexemeKind, kind.name ≠ name) :
      ofName name = unknown := (name_ofName name).resolve_left (foreign _)
  constructor
  · rintro rfl
    by_cases known : ∃ kind : LexemeKind, kind.name = name
    · obtain ⟨kind, rfl⟩ := known
      rw [ofName_name]
      exact .own kind
    · have foreign (kind : LexemeKind) : kind.name ≠ name := fun same => known ⟨kind, same⟩
      rw [ofForeign foreign]
      exact .other foreign
  · rintro (_ | foreign)
    · exact ofName_name kind
    · exact ofForeign foreign

theorem LexemeKind.reads : Json.Reads ofJson IsGivenBy := by
  intro value kind
  constructor
  · intro read
    unfold ofJson at read
    split at read
    · exact .name (ofName_eq_iff.mp (Except.ok.inj read))
    · exact .key (ofName_eq_iff.mp (Except.ok.inj read))
    · cases read
  · rintro (named | named) <;> exact congrArg Except.ok (ofName_eq_iff.mpr named)

theorem Location.reads : Json.Reads ofJson IsGivenBy := by
  refine Json.reads_record (by decide) fun fields distinct location => ?_
  simp only [bind_eq_ok_iff, (Json.reads_nat _).field distinct, pure, Except.pure,
    Except.ok.injEq]
  constructor
  · rintro ⟨line, first, column, second, rfl⟩
    exact ⟨first, second⟩
  · rintro ⟨first, second⟩
    exact ⟨_, first, _, second, rfl⟩

theorem Lexeme.reads : Json.Reads ofJson IsGivenBy := by
  refine Json.reads_record (by decide) fun fields distinct lexeme => ?_
  simp only [bind_eq_ok_iff, LexemeKind.reads.field distinct, Location.reads.field distinct, pure,
    Except.pure, Except.ok.injEq]
  constructor
  · rintro ⟨kind, first, start, second, stop, third, rfl⟩
    exact ⟨first, second, third⟩
  · rintro ⟨first, second, third⟩
    exact ⟨_, first, _, second, _, third, rfl⟩

/-- Lexemes are read from the texts that tell them. -/
theorem Lexemes.parse_eq_ok_iff {text : Text} {lexemes : List Lexeme} :
    parse text = .ok lexemes ↔ Json.IsToldBy (Json.IsList Lexeme.IsGivenBy) lexemes text :=
  Lexeme.reads.list.decode

end TokenMarkup
