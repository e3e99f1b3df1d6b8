import TokenMarkup.Proofs.Fidelity

/-!
# Markup reads back as what was written

Names come from a server and may hold quotes, brackets, or text that looks like a tag. None of it
shows in markup: all brackets are those of the tags that were written (`Markup.brackets_render`),
and a reader that looks no further than to the next bracket, quote or closing tag has the spans
again (`Markup.read?_render`). It cannot tell two plain spans that stand side by side from one, nor
an empty one from none, so what it reads are the items of `Markup.items`.

The stems of class names are written as they are. Stems that are read from a setting need no escape
(`ClassStems.isPlain_ofStem`), and so the whole attribute is escaped text like any other
(`ClassStems.classes_eq_escape`).
-/

namespace TokenMarkup

/-! ## Escaped text -/

namespace Markup

theorem escape_append (text text' : Text) : escape (text ++ text') = escape text ++ escape text' :=
  List.flatMap_append

theorem escapeChar_of_isStemChar {c : Char} (valid : Settings.isStemChar c) :
    escapeChar c = [c] := by
  rcases escapeChar_cases c with rfl | rfl | rfl | rfl | rfl | ⟨-, written⟩
  · cases valid
  · cases valid
  · cases valid
  · cases valid
  · cases valid
  · exact written

theorem escape_of_all_isStemChar {text : Text} (valid : text.all Settings.isStemChar) :
    escape text = text := by
  induction text with
  | nil => rfl
  | cons c rest ih =>
      rw [List.all_cons, Bool.and_eq_true] at valid
      rw [escape, List.flatMap_cons, escapeChar_of_isStemChar valid.1, ← escape, ih valid.2,
        List.singleton_append]

end Markup

namespace ClassStems

/-- The value of the class attribute for a token, with nothing escaped. -/
def classValue (stems : ClassStems) (token : Token) : Text :=
  stems.type.toList ++ token.type.toList ++
    token.modifiers.names.flatMap fun name => ' ' :: stems.modifier.toList ++ name.toList

/-- Whether the stems need no escape. -/
structure IsPlain (stems : ClassStems) : Prop where
  type : Markup.escape stems.type.toList = stems.type.toList
  modifier : Markup.escape stems.modifier.toList = stems.modifier.toList

theorem isPlain_ofStem {value stem : String} (found : Settings.stem? value = some stem) :
    (ofStem stem).IsPlain := by
  have plain := Markup.escape_of_all_isStemChar (Settings.all_isStemChar_of_stem? found)
  constructor
  · rw [ofStem, String.toList_append, Markup.escape_append, plain]
    rfl
  · rw [ofStem, String.toList_append, Markup.escape_append, plain]
    rfl

/-- With plain stems, the classes of a token are its class value, escaped. -/
theorem classes_eq_escape {stems : ClassStems} (plain : stems.IsPlain) (token : Token) :
    stems.classes token = Markup.escape (stems.classValue token) := by
  have each : ∀ names : List String,
      (names.flatMap fun name => ' ' :: stems.modifier.toList ++ Markup.escape name.toList) =
        Markup.escape (names.flatMap fun name => ' ' :: stems.modifier.toList ++ name.toList) := by
    intro names
    induction names with
    | nil => rfl
    | cons name names ih =>
        have space : Markup.escape (' ' :: stems.modifier.toList) = ' ' :: stems.modifier.toList :=
          congrArg (' ' :: ·) plain.modifier
        rw [List.flatMap_cons, List.flatMap_cons, Markup.escape_append, Markup.escape_append, space,
          ih]
  rw [classes, classValue, each, Markup.escape_append, Markup.escape_append, plain.type]

end ClassStems

/-! ## Brackets -/

namespace Markup

/-- The tags that markup is written with. -/
inductive Tag where
  | opening
  | closing
deriving DecidableEq, Repr

/-- How a tag is written, an opening one up to the value of its attribute. -/
def Tag.literal : Tag → Text
  | opening => "<span class=\"".toList
  | closing => "</span>".toList

/-- The tag that markup begins with. -/
def tag? (markup : Text) : Option Tag :=
  if Tag.opening.literal.isPrefixOf markup then some .opening
  else if Tag.closing.literal.isPrefixOf markup then some .closing
  else none

/-- The tags at the opening brackets of markup, one for each of them. -/
def brackets : Text → List (Option Tag)
  | [] => []
  | c :: rest => if c = '<' then tag? (c :: rest) :: brackets rest else brackets rest

example : brackets "<i>&lt;<span class=\"a\">b</span>".toList =
    [none, some .opening, some .closing] := by decide

theorem brackets_append {text : Text} (noTag : '<' ∉ text) (rest : Text) :
    brackets (text ++ rest) = brackets rest := by
  induction text with
  | nil => rfl
  | cons c text ih =>
      rw [List.mem_cons, not_or] at noTag
      have other : c ≠ '<' := fun same => noTag.1 same.symm
      rw [List.cons_append, brackets, if_neg other, ih noTag.2]

theorem brackets_literal_append (tag : Tag) (rest : Text) :
    brackets (tag.literal ++ rest) = some tag :: brackets rest := by
  cases tag with
  | opening => rfl
  | closing => rfl

theorem renderSpan_of_plain {stems : ClassStems} {span : Span} (unstyled : span.token = none) :
    renderSpan stems span = escape span.text := by
  rw [renderSpan, unstyled]

/-- With plain stems, what is written of a styled span is escaped text but for its tags. -/
theorem renderSpan_append {stems : ClassStems} (plain : stems.IsPlain) {span : Span}
    {token : Token} (styled : span.token = some token) (rest : Text) :
    renderSpan stems span ++ rest =
      Tag.opening.literal ++ (escape (stems.classValue token) ++ ('"' :: '>' ::
        (escape span.text ++ (Tag.closing.literal ++ rest)))) := by
  have written : renderSpan stems span = Tag.opening.literal ++ stems.classes token ++ ['"', '>'] ++
      escape span.text ++ Tag.closing.literal := by
    rw [renderSpan, styled]
    rfl
  rw [written, ClassStems.classes_eq_escape plain]
  simp only [List.append_assoc, List.cons_append, List.nil_append]

/-- Every bracket belongs to a tag, and the tags are those of the styled spans: an opening and a
closing one for each. -/
theorem brackets_render {stems : ClassStems} (plain : stems.IsPlain) (spans : List Span) :
    brackets (render stems spans) =
      (spans.filter (·.token.isSome)).flatMap fun _ => [some .opening, some .closing] := by
  have free (text : Text) : '<' ∉ escape text := not_mem_escape (by decide) text
  induction spans with
  | nil => rfl
  | cons span spans ih =>
      rw [render, List.flatMap_cons, ← render]
      cases styled : span.token with
      | none =>
          rw [renderSpan_of_plain styled, brackets_append (free _), ih,
            List.filter_cons_of_neg (by simp [styled])]
      | some token =>
          rw [renderSpan_append plain styled, brackets_literal_append, brackets_append (free _),
            brackets, if_neg (by decide), brackets, if_neg (by decide), brackets_append (free _),
            brackets_literal_append, ih, List.filter_cons_of_pos (by simp [styled])]
          rfl

/-! ## A reader of spans -/

/-- What is read of markup: text, or an element with the value of its class attribute and its
text. -/
inductive Item where
  | text (text : Text)
  | element (classes text : Text)
deriving DecidableEq, Repr

/-- An item for a text that is not empty. -/
def Item.text? (text : Text) : List Item :=
  if text.isEmpty then [] else [.text text]

/-- What stands in front of the first place where `mark` is written, and what stands behind it. -/
def cutAt? (mark : Text) : Text → Option (Text × Text)
  | [] => none
  | c :: markup =>
    match (c :: markup).dropPrefix? mark with
    | some rest => some ([], rest)
    | none => (cutAt? mark markup).map fun (front, rest) => (c :: front, rest)

/-- Reads an element, and gives what stands behind it. -/
def element? (markup : Text) : Option (Item × Text) := do
  let inTag ← markup.dropPrefix? Tag.opening.literal
  let (classes, inTag) ← cutAt? ['"'] inTag
  let content ← inTag.dropPrefix? ['>']
  let (text, rest) ← cutAt? Tag.closing.literal content
  return (.element (unescape classes) (unescape text), rest)

theorem length_of_dropPrefix? {mark markup rest : Text}
    (found : markup.dropPrefix? mark = some rest) : markup.length = mark.length + rest.length := by
  obtain ⟨front, rfl, same⟩ := List.dropPrefix?_eq_some_iff.mp found
  rw [beq_iff_eq.mp same, List.length_append]

theorem length_of_cutAt? {mark markup front rest : Text}
    (found : cutAt? mark markup = some (front, rest)) : rest.length ≤ markup.length := by
  induction markup generalizing front with
  | nil => cases found
  | cons c markup ih =>
      rw [cutAt?] at found
      split at found
      · next dropped =>
          cases found
          rw [length_of_dropPrefix? dropped]
          exact Nat.le_add_left _ _
      · obtain ⟨⟨front', rest'⟩, later, same⟩ := Option.map_eq_some_iff.mp found
        cases same
        exact Nat.le_succ_of_le (ih later)

theorem length_of_element? {markup rest : Text} {item : Item}
    (found : element? markup = some (item, rest)) : rest.length < markup.length := by
  obtain ⟨inTag, opened, found⟩ := Option.bind_eq_some_iff.mp found
  obtain ⟨⟨classes, behind⟩, quoted, found⟩ := Option.bind_eq_some_iff.mp found
  obtain ⟨content, ended, found⟩ := Option.bind_eq_some_iff.mp found
  obtain ⟨⟨text, last⟩, closed, same⟩ := Option.bind_eq_some_iff.mp found
  cases same
  have first := length_of_dropPrefix? opened
  have second := length_of_cutAt? quoted
  have third := length_of_dropPrefix? ended
  have fourth := length_of_cutAt? closed
  have tagLength : Tag.opening.literal.length = 13 := rfl
  have endLength : ['>'].length = 1 := rfl
  omega

/-- Reads markup: text up to the next bracket, and an element there. -/
def read? (markup : Text) : Option (List Item) :=
  let front := Item.text? (unescape (markup.takeWhile (· != '<')))
  let tagged := markup.dropWhile (· != '<')
  if tagged.isEmpty then some front
  else
    match _ : element? tagged with
    | none => none
    | some (element, rest) => (read? rest).map (front ++ element :: ·)
termination_by markup.length
decreasing_by
  have shorter := length_of_element? ‹element? tagged = some (element, rest)›
  exact Nat.lt_of_lt_of_le shorter (List.dropWhile_sublist _).length_le

/-- What is to be read of spans when plain text stands in front of them. -/
def itemsFrom (stems : ClassStems) (front : Text) : List Span → List Item
  | [] => Item.text? front
  | span :: spans =>
    match span.token with
    | none => itemsFrom stems (front ++ span.text) spans
    | some token =>
      Item.text? front ++ .element (stems.classValue token) span.text :: itemsFrom stems [] spans

/-- What is to be read of spans: the text of those that stand plain side by side, unless it is
empty, and an element for each that is styled. -/
def items (stems : ClassStems) (spans : List Span) : List Item := itemsFrom stems [] spans

/-! ## Reading what was written -/

theorem cutAt?_append {m : Char} {front : Text} (absent : m ∉ front) (mark rest : Text) :
    cutAt? (m :: mark) (front ++ (m :: mark ++ rest)) = some (front, rest) := by
  induction front with
  | nil =>
      have here : (m :: mark ++ rest).dropPrefix? (m :: mark) = some rest :=
        List.dropPrefix?_append_of_beq rest (beq_self_eq_true _)
      rw [List.nil_append, List.cons_append, cutAt?, ← List.cons_append, here]
  | cons c front ih =>
      rw [List.mem_cons, not_or] at absent
      have other : (c == m) = false := beq_false_of_ne fun same => absent.1 same.symm
      have notHere : (c :: (front ++ (m :: mark ++ rest))).dropPrefix? (m :: mark) = none := by
        simp [List.dropPrefix?, other]
      rw [List.cons_append, cutAt?, notHere, ih absent.2]
      rfl

theorem element?_renderSpan {stems : ClassStems} (plain : stems.IsPlain) {span : Span}
    {token : Token} (styled : span.token = some token) (rest : Text) :
    element? (renderSpan stems span ++ rest) =
      some (.element (stems.classValue token) span.text, rest) := by
  have opened (behind : Text) :
      (Tag.opening.literal ++ behind).dropPrefix? Tag.opening.literal = some behind :=
    List.dropPrefix?_append_of_beq behind (beq_self_eq_true _)
  have noQuote : '"' ∉ escape (stems.classValue token) := not_mem_escape (by decide) _
  have noTag : '<' ∉ escape span.text := not_mem_escape (by decide) _
  have quoted := cutAt?_append noQuote []
    ('>' :: (escape span.text ++ (Tag.closing.literal ++ rest)))
  have ended (behind : Text) : ('>' :: behind).dropPrefix? ['>'] = some behind :=
    List.dropPrefix?_append_of_beq behind (beq_self_eq_true ['>'])
  have closed := cutAt?_append noTag "/span>".toList rest
  rw [renderSpan_append plain styled]
  refine Option.bind_eq_some_iff.mpr ⟨_, opened _, ?_⟩
  refine Option.bind_eq_some_iff.mpr ⟨_, quoted, ?_⟩
  refine Option.bind_eq_some_iff.mpr ⟨_, ended _, ?_⟩
  refine Option.bind_eq_some_iff.mpr ⟨_, closed, ?_⟩
  simp only [unescape_escape]
  rfl

theorem takeWhile_escape_append {rest : Text} (stops : ∀ c ∈ rest.head?, c = '<') (text : Text) :
    (escape text ++ rest).takeWhile (· != '<') = escape text ∧
      (escape text ++ rest).dropWhile (· != '<') = rest := by
  have inside : ∀ c ∈ escape text, (c != '<') = true := by
    intro c member
    rw [bne_iff_ne]
    rintro rfl
    exact not_mem_escape (by decide) text member
  rw [List.takeWhile_append_of_pos inside, List.dropWhile_append_of_pos inside]
  cases rest with
  | nil => simp
  | cons c rest =>
      obtain rfl := stops c rfl
      simp

theorem read?_escape (text : Text) : read? (escape text) = some (Item.text? text) := by
  have alone := @takeWhile_escape_append [] (by simp) text
  rw [List.append_nil] at alone
  rw [read?, if_pos (by rw [alone.2]; rfl), alone.1, unescape_escape]

/-- Escaped text in front of an element is read as one item, and then the element. -/
theorem read?_escape_append {markup rest : Text} {element : Item}
    (found : element? ('<' :: markup) = some (element, rest)) (text : Text) :
    read? (escape text ++ '<' :: markup) =
      (read? rest).map (Item.text? text ++ element :: ·) := by
  obtain ⟨front, tagged⟩ := @takeWhile_escape_append ('<' :: markup) (by simp) text
  rw [read?]
  simp only [front, tagged, unescape_escape, List.isEmpty_cons, Bool.false_eq_true, if_false]
  split
  · next failed =>
      rw [tagged, found] at failed
      cases failed
  · next found' =>
      rw [tagged, found] at found'
      cases found'
      rfl

theorem read?_escape_append_render {stems : ClassStems} (plain : stems.IsPlain) (front : Text)
    (spans : List Span) :
    read? (escape front ++ render stems spans) = some (itemsFrom stems front spans) := by
  -- Along the spans: a plain one only adds to the text in front of the next tag.
  induction spans generalizing front with
  | nil =>
      rw [render, List.flatMap_nil, List.append_nil]
      exact read?_escape front
  | cons span spans ih =>
      rw [render, List.flatMap_cons, ← render, itemsFrom]
      cases styled : span.token with
      | none =>
          rw [renderSpan_of_plain styled, ← List.append_assoc, ← escape_append]
          exact ih (front ++ span.text)
      | some token =>
          have found := element?_renderSpan plain styled (render stems spans)
          rw [renderSpan_append plain styled] at found ⊢
          have others : read? (render stems spans) = some (itemsFrom stems [] spans) := ih []
          exact (read?_escape_append found front).trans (by rw [others]; rfl)

/-- Markup reads back as the items of its spans. -/
theorem read?_render {stems : ClassStems} (plain : stems.IsPlain) (spans : List Span) :
    read? (render stems spans) = some (items stems spans) :=
  read?_escape_append_render plain [] spans

/-! ## Main result -/

/-- With stems that were read from a setting, the brackets of markup are those of its tags, which
open and close one span after the other; what is read of markup is what was written, so that two
lists of spans with the same markup have the same items. In particular, nothing is lost by an
escape. -/
theorem render_reads_back {value stem : String} (found : Settings.stem? value = some stem)
    (spans : List Span) :
    brackets (render (.ofStem stem) spans) =
      (spans.filter (·.token.isSome)).flatMap (fun _ => [some .opening, some .closing]) ∧
    read? (render (.ofStem stem) spans) = some (items (.ofStem stem) spans) ∧
    (∀ others, render (.ofStem stem) others = render (.ofStem stem) spans →
      items (.ofStem stem) others = items (.ofStem stem) spans) ∧
    ∀ text, unescape (escape text) = text := by
  have plain := ClassStems.isPlain_ofStem found
  refine ⟨brackets_render plain spans, read?_render plain spans, ?_, unescape_escape⟩
  intro others same
  have read := read?_render plain others
  rw [same, read?_render plain spans, Option.some.injEq] at read
  exact read.symm

/-- Two plain spans with an empty one between them are read as one text, and none is read between
the two marks. One mark has a name that would end its tag, the other a text that is a tag. -/
theorem render_reads_back_names :
    Settings.stem? " hl\t" = some "hl" ∧
    read? (render (.ofStem "hl") [.plain "a<".toList, .plain [], .plain "\n".toList,
        .styled [] ⟨1, 0, 0, "x\"><b", ⟨["&lt;", ""]⟩⟩, .plain [],
        .styled "</span>".toList ⟨1, 0, 7, "", .empty⟩]) =
      some [.text "a<\n".toList, .element "hl-type-x\"><b hl-modifier-&lt; hl-modifier-".toList [],
        .element "hl-type-".toList "</span>".toList] := by
  have found : Settings.stem? " hl\t" = some "hl" := by decide +kernel
  exact ⟨found, (render_reads_back found _).2.1⟩

end Markup

end TokenMarkup
