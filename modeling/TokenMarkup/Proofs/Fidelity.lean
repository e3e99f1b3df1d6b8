import TokenMarkup.Highlight
import TokenMarkup.Proofs.Partition
import TokenMarkup.Proofs.Steps

/-!
# Markup keeps the text

Whoever takes the tags out of the markup of a text and reads its entities as the characters that
they stand for has the text again. `Markup.stripTags` and `Markup.unescape` are that reader. The
argument has three parts: lines are joined to the text that they were split from, spans hold the
text of the lines (`Span.Cuts.text_eq`), and the reader undoes what `Markup.render` does to spans
(`stripTags_render`, `unescape_escape`), as neither text nor names bring a bracket of their own.
-/

namespace TokenMarkup

/-! ## Lines -/

namespace Text

theorem split_ne_nil (separator : Char) (text : Text) : split separator text ≠ [] := by
  cases text with
  | nil => simp
  | cons c rest =>
      rw [split_cons]
      unfold consPart
      split
      · simp
      · split <;> simp

/-- The parts of a text, with the separator between them, are the text. -/
theorem intercalate_split (separator : Char) (text : Text) :
    [separator].intercalate (split separator text) = text := by
  induction text with
  | nil => simp
  | cons c rest ih =>
      obtain ⟨part, parts, parted⟩ := List.exists_cons_of_ne_nil (split_ne_nil separator rest)
      rw [parted] at ih
      rw [split_cons, parted, consPart]
      split
      · next same => simp [List.intercalate_cons_cons, ih, same]
      · simp [List.intercalate_cons_cons_left, ih]

theorem not_mem_of_mem_split (separator : Char) (text : Text) :
    ∀ part ∈ split separator text, separator ∉ part := by
  induction text with
  | nil => simp
  | cons c rest ih =>
      obtain ⟨part, parts, parted⟩ := List.exists_cons_of_ne_nil (split_ne_nil separator rest)
      rw [parted] at ih
      rw [split_cons, parted, consPart]
      split
      · simpa using ih
      · next other =>
          rw [List.forall_mem_cons] at ih ⊢
          exact ⟨by simp [ih.1, Ne.symm other], ih.2⟩

end Text

/-! ## A reader of markup -/

namespace Markup

/-- What stands outside of tags. A tag is all from a `<` to the next `>`. -/
def stripFrom (inTag : Bool) : Text → Text
  | [] => []
  | c :: rest =>
    if inTag then stripFrom (c != '>') rest
    else if c = '<' then stripFrom true rest
    else c :: stripFrom false rest

/-- Markup without its tags. -/
def stripTags (markup : Text) : Text := stripFrom false markup

/-- Text with its entities read as characters. -/
def unescape : Text → Text
  | '&' :: 'l' :: 't' :: ';' :: rest => '<' :: unescape rest
  | '&' :: 'g' :: 't' :: ';' :: rest => '>' :: unescape rest
  | '&' :: 'a' :: 'm' :: 'p' :: ';' :: rest => '&' :: unescape rest
  | '&' :: 'q' :: 'u' :: 'o' :: 't' :: ';' :: rest => '"' :: unescape rest
  | '&' :: 'a' :: 'p' :: 'o' :: 's' :: ';' :: rest => '\'' :: unescape rest
  | c :: rest => c :: unescape rest
  | [] => []

example : unescape (stripTags "<b>a &lt;&amp;lt;</b>\n".toList) = "a <&lt;\n".toList := by decide

theorem unescape_cons {c : Char} (plainChar : c ≠ '&') (rest : Text) :
    unescape (c :: rest) = c :: unescape rest := by
  conv_lhs => unfold unescape
  split <;> simp_all

theorem escapeChar_cases (c : Char) :
    c = '<' ∨ c = '>' ∨ c = '&' ∨ c = '"' ∨ c = '\'' ∨ (c ≠ '&' ∧ escapeChar c = [c]) := by
  unfold escapeChar
  split <;> simp_all

theorem unescape_escapeChar_append (c : Char) (rest : Text) :
    unescape (escapeChar c ++ rest) = c :: unescape rest := by
  rcases escapeChar_cases c with rfl | rfl | rfl | rfl | rfl | ⟨plainChar, written⟩
  · rfl
  · rfl
  · rfl
  · rfl
  · rfl
  · rw [written, List.singleton_append, unescape_cons plainChar]

/-- Reading the entities undoes the escapes. -/
theorem unescape_escape (text : Text) : unescape (escape text) = text := by
  induction text with
  | nil => rfl
  | cons c rest ih =>
      rw [escape, List.flatMap_cons, unescape_escapeChar_append, ← escape, ih]

/-- What is escaped does not show, but for the ampersand that an escape begins with. -/
theorem not_mem_escape {c : Char} (special : c ∈ ['<', '>', '"', '\'']) (text : Text) :
    c ∉ escape text := by
  have char_free : ∀ d : Char, c ∉ escapeChar d := by
    intro d
    simp only [List.mem_cons, List.not_mem_nil, or_false] at special
    unfold escapeChar
    rcases special with rfl | rfl | rfl | rfl <;> split <;> simp_all [eq_comm]
  simp only [escape, List.mem_flatMap, not_exists, not_and]
  exact fun d _ => char_free d

theorem bracket_not_mem_escape (text : Text) : '<' ∉ escape text ∧ '>' ∉ escape text :=
  ⟨not_mem_escape (by decide) text, not_mem_escape (by decide) text⟩

/-- Outside of tags, text without an opening bracket stays. -/
theorem stripTags_append {text : Text} (noTag : '<' ∉ text) (rest : Text) :
    stripTags (text ++ rest) = text ++ stripTags rest := by
  induction text with
  | nil => rfl
  | cons c text ih =>
      rw [List.mem_cons, not_or] at noTag
      have other : c ≠ '<' := fun same => noTag.1 same.symm
      rw [stripTags, List.cons_append, stripFrom, if_neg (by simp), if_neg other, ← stripTags,
        ih noTag.2, List.cons_append]

theorem stripTags_tag {tag : Text} (noEnd : '>' ∉ tag) (rest : Text) :
    stripTags ('<' :: tag ++ '>' :: rest) = stripTags rest := by
  -- Behind the opening bracket the reader is inside of a tag, and stays there up to its end.
  have inside : stripFrom true (tag ++ '>' :: rest) = stripTags rest := by
    induction tag with
    | nil => rfl
    | cons c tag ih =>
        rw [List.mem_cons, not_or] at noEnd
        have other : (c != '>') = true := bne_iff_ne.mpr fun same => noEnd.1 same.symm
        rw [List.cons_append, stripFrom, if_pos rfl, other, ih noEnd.2]
  exact inside

end Markup

/-! ## Spans and their tags -/

namespace ClassStems

/-- Whether the stems can stand in a tag. -/
def IsSafe (stems : ClassStems) : Prop :=
  '>' ∉ stems.type.toList ∧ '>' ∉ stems.modifier.toList

theorem not_mem_classes {stems : ClassStems} (safe : stems.IsSafe) (token : Token) :
    '>' ∉ stems.classes token := by
  have escaped := fun text => (Markup.bracket_not_mem_escape text).2
  simp only [classes, List.mem_append, List.mem_flatMap, List.mem_cons, not_or, not_exists,
    not_and]
  exact ⟨⟨safe.1, escaped _⟩, fun name _ => ⟨⟨by decide, safe.2⟩, escaped _⟩⟩

end ClassStems

namespace Markup

theorem stripTags_renderSpan_append {stems : ClassStems} (safe : stems.IsSafe) (span : Span)
    (rest : Text) :
    stripTags (renderSpan stems span ++ rest) = escape span.text ++ stripTags rest := by
  have noTag := (bracket_not_mem_escape span.text).1
  rw [renderSpan]
  split
  · exact stripTags_append noTag rest
  · next token _ =>
      have opened : '>' ∉ "span class=\"".toList ++ stems.classes token ++ ['"'] := by
        simp only [List.mem_append, not_or]
        exact ⟨⟨by decide, stems.not_mem_classes safe token⟩, by decide⟩
      calc stripTags ("<span class=\"".toList ++ stems.classes token ++ "\">".toList ++
            escape span.text ++ "</span>".toList ++ rest)
        _ = stripTags ('<' :: ("span class=\"".toList ++ stems.classes token ++ ['"']) ++
              '>' :: (escape span.text ++ ('<' :: "/span".toList ++ '>' :: rest))) := by simp
        _ = stripTags (escape span.text ++ ('<' :: "/span".toList ++ '>' :: rest)) :=
              stripTags_tag opened _
        _ = escape span.text ++ stripTags ('<' :: "/span".toList ++ '>' :: rest) :=
              stripTags_append noTag _
        _ = escape span.text ++ stripTags rest := by rw [stripTags_tag (by decide)]

/-- Without its tags, the markup of spans is their escaped text. -/
theorem stripTags_render {stems : ClassStems} (safe : stems.IsSafe) (spans : List Span) :
    stripTags (render stems spans) = escape (spans.flatMap Span.text) := by
  induction spans with
  | nil => rfl
  | cons span spans ih =>
      have joined : escape (span.text ++ spans.flatMap Span.text) =
          escape span.text ++ escape (spans.flatMap Span.text) := List.flatMap_append
      rw [render, List.flatMap_cons, stripTags_renderSpan_append safe, ← render, ih,
        List.flatMap_cons, joined]

end Markup

/-! ## Settings -/

namespace Settings

theorem all_isStemChar_of_stem? {value stem : String} (found : stem? value = some stem) :
    stem.toList.all isStemChar := by
  rw [stem?] at found
  split at found
  · next valid =>
      rw [Option.some.injEq] at found
      subst found
      rw [Bool.and_eq_true] at valid
      simpa using valid.2
  · cases found

/-- Whatever the environment says, the stems can stand in a tag. -/
theorem isSafe_stems_ofEnvironment (lookup : String → Option String) :
    (ofEnvironment lookup).stems.IsSafe := by
  have stemChars : (ofEnvironment lookup).stem.toList.all isStemChar := by
    cases found : (lookup stemVariable).bind stem? with
    | none =>
        rw [ofEnvironment, found]
        change ClassStems.defaultStem.toList.all isStemChar
        decide
    | some stem =>
        obtain ⟨value, -, valid⟩ := Option.bind_eq_some_iff.mp found
        rw [ofEnvironment, found]
        exact all_isStemChar_of_stem? valid
  have noBracket : '>' ∉ (ofEnvironment lookup).stem.toList :=
    fun member => absurd (List.all_eq_true.mp stemChars '>' member) (by decide)
  simp only [ClassStems.IsSafe, stems, ClassStems.ofStem, String.toList_append, List.mem_append,
    not_or]
  exact ⟨⟨noBracket, by decide⟩, noBracket, by decide⟩

end Settings

/-! ## Main result -/

namespace Request

theorem flatMap_text_spans {request : Request} {settings : Settings} {spans : List Span}
    (run : request.spans settings = .ok spans) : spans.flatMap Span.text = request.text := by
  obtain ⟨tokens, -, cut⟩ := bind_eq_ok_iff.mp run
  have joined : ['\n'].intercalate request.lines = request.text :=
    Text.intercalate_split '\n' request.text
  obtain ⟨line, later, split⟩ :=
    List.exists_cons_of_ne_nil (Text.split_ne_nil '\n' request.text)
  have cuts := Span.cutsAll_of_ofTokens cut
  rw [lines, Text.lines, split] at cuts joined
  rw [Span.Cuts.text_eq cuts, joined]

/-- Taking the tags out of markup and reading its entities gives the text back, whatever the
request and wherever the settings come from. -/
theorem unescape_stripTags_markup {request : Request} {lookup : String → Option String}
    {markup : Text} (run : request.markup (Settings.ofEnvironment lookup) = .ok markup) :
    Markup.unescape (Markup.stripTags markup) = request.text := by
  obtain ⟨spans, cut, rfl⟩ := map_eq_ok_iff.mp run
  rw [Markup.stripTags_render (Settings.isSafe_stems_ofEnvironment lookup),
    Markup.unescape_escape, flatMap_text_spans cut]

/-- Brackets and quotes in names of the legend are no tags, and a mark on the empty line behind the
text adds nothing to it. -/
theorem unescape_stripTags_markup_names :
    markup
      { text := "a<b\n".toList, stream := [0, 1, 1, 0, 1], legend := ⟨["x>y"], ["\"m"]⟩,
        lexemes := [⟨.comment, ⟨1, 1⟩, ⟨2, 1⟩⟩] } (Settings.ofEnvironment fun _ => none) =
      .ok ("a<span class=\"lsp-type-x&gt;y lsp-modifier-&quot;m\">&lt;</span>b\n".toList ++
        "<span class=\"lsp-type-comment\"></span>".toList) ∧
    Markup.unescape (Markup.stripTags
      ("a<span class=\"lsp-type-x&gt;y lsp-modifier-&quot;m\">&lt;</span>b\n".toList ++
        "<span class=\"lsp-type-comment\"></span>".toList)) = "a<b\n".toList := by
  have run : markup
      { text := "a<b\n".toList, stream := [0, 1, 1, 0, 1], legend := ⟨["x>y"], ["\"m"]⟩,
        lexemes := [⟨.comment, ⟨1, 1⟩, ⟨2, 1⟩⟩] } (Settings.ofEnvironment fun _ => none) =
      .ok ("a<span class=\"lsp-type-x&gt;y lsp-modifier-&quot;m\">&lt;</span>b\n".toList ++
        "<span class=\"lsp-type-comment\"></span>".toList) := by
    decide +kernel
  exact ⟨run, unescape_stripTags_markup run⟩

end Request

end TokenMarkup
