/-!
# Source text

Text is a list of characters, so that every law about lines, offsets and spans is a law about
lists. A line is a text without newlines; `Text.lines` cuts a text at its newlines.
-/

namespace TokenMarkup

/-- A piece of source text, one character after the other. -/
abbrev Text := List Char

namespace Text

/-- Puts a character in front of the parts of what follows it. The separator opens a new part. -/
def consPart (separator c : Char) (parts : List Text) : List Text :=
  if c = separator then [] :: parts
  else match parts with
    | [] => [[c]]
    | part :: rest => (c :: part) :: rest

/-- The parts of a text between its separators. A text with `n` separators has `n + 1` parts, any
of which may be empty. -/
def split (separator : Char) (text : Text) : List Text :=
  text.foldr (consPart separator) [[]]

/-- The lines of a text. The last one is empty when the text ends in a newline. -/
def lines (text : Text) : List Text := split '\n' text

@[simp] theorem split_nil (separator : Char) : split separator [] = [[]] := rfl

@[simp] theorem split_cons (separator c : Char) (rest : Text) :
    split separator (c :: rest) = consPart separator c (split separator rest) := rfl

example : lines "a\n\nb\n".toList = ["a".toList, [], "b".toList, []] := by decide

end Text

end TokenMarkup
