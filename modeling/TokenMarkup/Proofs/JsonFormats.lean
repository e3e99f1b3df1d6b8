import TokenMarkup.Proofs.JsonReading
import TokenMarkup.Proofs.JsonWriting

/-!
# Formats in JSON

What is written in JSON is read back. The writers put down records of the kind that the readers
accept (`Payload.isGivenBy_toJson`, `Token.isGivenBy_toJson`), and what they write spells them,
since every number in it is written in digits (`HasNumbers`). A payload can as well come from
elsewhere, with its fields spelled in any way and order and with others among them.
-/

namespace TokenMarkup

namespace Json

/-! ## Values that are given -/

theorem isNat_nat {bound value : Nat} (small : value < bound) : IsNat bound value (.nat value) :=
  ⟨small, _, rfl, nat?_eq_some_iff.mp (nat?_toDigits value)⟩

theorem isList_map {α : Type} {given : α → Json → Prop} {writer : α → Json} {values : List α}
    (each : ∀ value ∈ values, given value (writer value)) :
    IsList given values (.array (values.map writer)) := by
  refine ⟨_, rfl, ?_⟩
  rw [List.forall₂_map_right_iff, List.forall₂_same]
  exact each

theorem isList_texts (values : List String) : IsList IsText values (.texts values) :=
  isList_map fun _ _ => rfl

theorem isToldBy_of_isSpelledBy {α : Type} {given : α → Json → Prop} {content : α} {value : Json}
    {text : Text} (is : given content value) (spelled : value.IsSpelledBy text) :
    IsToldBy given content text :=
  ⟨value, parse?_of_isSpelledBy spelled, is⟩

/-! ## Numbers inside values -/

theorem hasNumbers_nat (value : Nat) : (nat value).HasNumbers := by
  intro literal member
  simp only [nat, symbols, List.mem_singleton, Symbol.number.injEq] at member
  exact member ▸ isNumber_toDigits value

theorem hasNumbers_text (value : String) : (text value).HasNumbers := by
  simp [HasNumbers, text, symbols]

theorem hasNumbers_array {items : List Json} (each : ∀ item ∈ items, item.HasNumbers) :
    (array items).HasNumbers := by
  have inside : ∀ literal, .number literal ∈ itemSymbols items → IsNumber literal := by
    induction items with
    | nil => simp [itemSymbols]
    | cons item rest ih =>
        obtain ⟨first, others⟩ := List.forall_mem_cons.mp each
        cases rest with
        | nil => exact first
        | cons next rest =>
            intro literal member
            simp only [itemSymbols, List.mem_append, List.mem_cons, reduceCtorEq,
              false_or] at member
            exact member.elim (first literal) (ih others literal)
  simpa [HasNumbers, symbols] using inside

theorem hasNumbers_object {members : List (Literal × Json)}
    (each : ∀ member ∈ members, member.2.HasNumbers) : (object members).HasNumbers := by
  have inside : ∀ literal, .number literal ∈ memberSymbols members → IsNumber literal := by
    induction members with
    | nil => simp [memberSymbols]
    | cons member rest ih =>
        obtain ⟨key, value⟩ := member
        obtain ⟨first, others⟩ := List.forall_mem_cons.mp each
        intro literal member
        cases rest with
        | nil =>
            simp only [memberSymbols, List.mem_cons, reduceCtorEq, false_or] at member
            exact first literal member
        | cons next rest =>
            simp only [memberSymbols, List.mem_append, List.mem_cons, reduceCtorEq,
              false_or] at member
            exact member.elim (first literal) (ih others literal)
  simpa [HasNumbers, symbols] using inside

theorem hasNumbers_texts (values : List String) : (texts values).HasNumbers :=
  hasNumbers_array (by simpa using fun value _ => hasNumbers_text value)

end Json

/-! ## Payloads -/

theorem PositionEncoding.isNamed_name (encoding : PositionEncoding) :
    encoding.IsNamed encoding.name := by
  rw [← parse?_eq_some_iff]
  cases encoding <;> decide

theorem AnnouncedLegend.isGivenBy_toJson (legend : AnnouncedLegend) :
    legend.IsGivenBy legend.toJson := by
  obtain ⟨types, modifiers⟩ := legend
  refine ⟨[("tokenTypes", .texts types), ("tokenModifiers", .texts modifiers)],
    Json.isRecord_object (by simp) (by simp), ?_, ?_⟩
  · exact ⟨_, by simp, Json.isList_texts types⟩
  · exact ⟨_, by simp, Json.isList_texts modifiers⟩

namespace Payload

/-- The fields of a payload that are written. -/
def fields (payload : Payload) : Json.Fields :=
  (payload.legend.map fun legend => ("legend", legend.toJson)).toList ++
    (payload.encoding.map fun encoding => ("positionEncoding", .text encoding.name)).toList ++
    [("data", .array (payload.data.map fun entry => .nat entry.toNat))]

theorem toJson_eq (payload : Payload) :
    payload.toJson = .object (payload.fields.map fun field => (some field.1, field.2)) := by
  obtain ⟨legend, encoding, data⟩ := payload
  cases legend <;> cases encoding <;> rfl

theorem isGivenBy_toJson (payload : Payload) : payload.IsGivenBy payload.toJson := by
  rw [toJson_eq]
  obtain ⟨legend, encoding, data⟩ := payload
  refine ⟨_, Json.isRecord_object ?_ ?_, ?_, ?_, ?_⟩
  · cases legend <;> cases encoding <;> simp [fields]
  · cases legend <;> cases encoding <;> simp [fields]
  · cases legend with
    | none => exact .inl ⟨by cases encoding <;> simp [fields], rfl⟩
    | some legend => exact .inr ⟨_, by simp [fields], .value legend.isGivenBy_toJson⟩
  · cases encoding with
    | none => exact .inl ⟨by cases legend <;> simp [fields], rfl⟩
    | some encoding =>
        exact .inr ⟨_, by simp [fields], .value ⟨_, encoding.isNamed_name, rfl⟩⟩
  · exact ⟨_, by simp [fields], Json.isList_map fun entry _ => Json.isNat_nat entry.toNat_lt⟩

theorem hasNumbers_toJson (payload : Payload) : payload.toJson.HasNumbers := by
  have isLegend (legend : AnnouncedLegend) : legend.toJson.HasNumbers :=
    Json.hasNumbers_object (by simp [Json.hasNumbers_texts])
  have isData (data : List UInt32) :
      (Json.array (data.map fun entry => .nat entry.toNat)).HasNumbers :=
    Json.hasNumbers_array (by simpa using fun (entry : UInt32) _ => Json.hasNumbers_nat entry.toNat)
  rw [toJson_eq]
  refine Json.hasNumbers_object ?_
  obtain ⟨legend, encoding, data⟩ := payload
  cases legend <;> cases encoding <;> simp [fields, isLegend, isData, Json.hasNumbers_text]

end Payload

/-! ## Tokens -/

namespace Token

/-- The fields of a token that are written. -/
def fields (token : Token) : Json.Fields :=
  [("line", .nat token.line), ("startChar", .nat token.start), ("length", .nat token.length),
    ("type", .text token.type)] ++
  if token.modifiers.isEmpty then [] else [("modifiers", .texts token.modifiers.names)]

/-- Whether the position and the length of a token fit into words. -/
def FitsWords (token : Token) : Prop :=
  token.line < positionBound ∧ token.start < positionBound ∧ token.length < positionBound

theorem readModifiers_texts (names : List String) :
    readModifiers (.texts names) = .ok ⟨names⟩ :=
  (reads_modifiers _ _).mpr (Json.isList_texts names)

theorem toJson_eq (token : Token) :
    token.toJson = .object (token.fields.map fun field => (some field.1, field.2)) := by
  rw [toJson, fields]
  split <;> rfl

theorem hasNumbers_toJson (token : Token) : token.toJson.HasNumbers := by
  rw [toJson_eq]
  refine Json.hasNumbers_object ?_
  rw [fields]
  split <;> simp [Json.hasNumbers_nat, Json.hasNumbers_text, Json.hasNumbers_texts]

theorem isGivenBy_toJson {token : Token} (fits : token.FitsWords) :
    token.IsGivenBy token.toJson := by
  obtain ⟨line, start, length⟩ := fits
  rw [toJson_eq]
  refine ⟨_, Json.isRecord_object ?_ ?_, ⟨_, by simp [fields], Json.isNat_nat line⟩,
    ⟨_, by simp [fields], Json.isNat_nat start⟩, ⟨_, by simp [fields], Json.isNat_nat length⟩,
    ⟨_, by simp [fields], rfl⟩, ?_⟩
  · rw [fields]
    split <;> simp
  · rw [fields]
    split <;> simp
  · by_cases none : token.modifiers.isEmpty
    · -- What stands in for the field that was left out is the list that was not written.
      have same : token.modifiers = .empty := congrArg Modifiers.mk (List.isEmpty_iff.mp none)
      exact .inl ⟨by simp [fields, none], same⟩
    · exact .inr ⟨_, by simp [fields, none], Json.isList_texts _⟩

end Token

/-! ## Main result -/

/-- What is written in JSON is read back: a payload with all that it holds, and a token with its
modifiers as they stand, repeated ones and none at all. The payload that is made of relative tokens
is also read from any JSON text of a record that has their numbers one after the other, five for
each token, with the legend and the encoding, in any order and with others among them. Either way
the legend to decode with is the announced one, else the default. -/
theorem Json.formats_read_back :
    (∀ payload : Payload, Payload.parse payload.serialize = .ok payload) ∧
    (∀ token : Token, token.FitsWords →
      Json.decode Token.ofJson token.toJson.write = .ok token) ∧
    ∀ (tokens : List RelativeToken) (legend : Option AnnouncedLegend)
      (encoding : Option PositionEncoding) (value : Json) (text : Text),
      Payload.IsGivenBy
        { legend, encoding
          data := tokens.flatMap fun token =>
            [token.deltaLine, token.deltaStart, token.length, token.type, token.modifiers] }
        value →
      value.IsSpelledBy text →
      Payload.parse text = .ok (Payload.ofTokens tokens legend encoding) ∧
        (Payload.ofTokens tokens legend encoding).tokenLegend = .ofAnnouncement legend ∧
        Payload.tokenLegend <$> Payload.parse text = .ok (.ofAnnouncement legend) := by
  refine ⟨fun payload => ?_, fun token fits => ?_, ?_⟩
  · have spelled := Json.isSpelledBy_write payload.hasNumbers_toJson
    exact Payload.parse_eq_ok_iff.mpr (isToldBy_of_isSpelledBy payload.isGivenBy_toJson spelled)
  · have spelled := Json.isSpelledBy_write token.hasNumbers_toJson
    exact Token.reads.decode.mpr (isToldBy_of_isSpelledBy (Token.isGivenBy_toJson fits) spelled)
  · intro tokens legend encoding value text given spelled
    have read : Payload.parse text = .ok (Payload.ofTokens tokens legend encoding) :=
      Payload.parse_eq_ok_iff.mpr (isToldBy_of_isSpelledBy given spelled)
    have legend_eq : (Payload.ofTokens tokens legend encoding).tokenLegend =
        .ofAnnouncement legend := Payload.tokenLegend_eq _
    refine ⟨read, legend_eq, ?_⟩
    rw [read, ← legend_eq]
    rfl

/-- A payload that begins with a blank, has no legend but says so, brings a member that is unknown
and has its stream in front of both. -/
theorem Json.formats_read_back_other_members :
    Json.decode Token.ofJson
        (Token.toJson ⟨1, 4, 2, "\"quoted\\", ⟨["static", "static"]⟩⟩).write =
      .ok ⟨1, 4, 2, "\"quoted\\", ⟨["static", "static"]⟩⟩ ∧
    Payload.parse " \x7b\"data\":[0,0,1,16,0],\"resultId\":\"7\",\"legend\":null\x7d".toList =
      .ok { legend := none, encoding := none, data := [0, 0, 1, 16, 0] } := by
  let stream : Json := .array [.nat 0, .nat 0, .nat 1, .nat 16, .nat 0]
  let members : Json.Fields :=
    [("data", stream), ("resultId", .text "7"), ("legend", .null)]
  let value : Json := .object (members.map fun member => (some member.1, member.2))
  have entries : Json.IsList Payload.IsEntry [0, 0, 1, 16, 0] stream :=
    Json.isList_map fun (entry : UInt32) _ => Json.isNat_nat entry.toNat_lt
  have given : Payload.IsGivenBy { legend := none, encoding := none, data := [0, 0, 1, 16, 0] }
      value := by
    refine ⟨_, .object (by decide), .inr ⟨.null, ?_, .null⟩, .inl ⟨?_, rfl⟩, stream, ?_, entries⟩
    all_goals simp [members]
  have numbers : value.HasNumbers := by
    have null : Json.null.HasNumbers := by simp [Json.HasNumbers, Json.symbols]
    have digits : stream.HasNumbers := Json.hasNumbers_array (by simp [Json.hasNumbers_nat])
    exact Json.hasNumbers_object (by simp [members, null, digits, Json.hasNumbers_text])
  have written : " \x7b\"data\":[0,0,1,16,0],\"resultId\":\"7\",\"legend\":null\x7d".toList =
      ' ' :: value.write := by decide +kernel
  have spelled := Json.Spells.blank (show Json.isSpace ' ' by decide)
    (Json.isSpelledBy_write numbers)
  have read := Json.formats_read_back.2.2 [⟨0, 0, 1, 16, 0⟩] none none value _ given spelled
  exact ⟨Json.formats_read_back.2.1 _ ⟨by decide, by decide, by decide⟩, written ▸ read.1⟩

end TokenMarkup
