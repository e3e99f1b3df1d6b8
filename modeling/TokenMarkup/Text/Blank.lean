import TokenMarkup.Text

/-!
# Blank characters

The characters with the Unicode property `White_Space`, and trimming by them. Names read from the
environment, the command line and payloads are trimmed before they are looked up.
-/

namespace TokenMarkup.Text

/-- Whether a character has the Unicode property `White_Space`. -/
def isBlank (c : Char) : Bool :=
  let n := c.toNat
  (0x09 ≤ n && n ≤ 0x0D) || n == 0x20 || n == 0x85 || n == 0xA0 || n == 0x1680 ||
    (0x2000 ≤ n && n ≤ 0x200A) || n == 0x2028 || n == 0x2029 || n == 0x202F || n == 0x205F ||
    n == 0x3000

/-- The text without the blanks at its two ends. -/
def trim (text : Text) : Text :=
  ((text.dropWhile isBlank).reverse.dropWhile isBlank).reverse

/-- Whether a text is what is left of another one without the blanks at its two ends. -/
structure IsTrimmed (text core : Text) : Prop where
  between : ∃ front behind, text = front ++ core ++ behind ∧
    (∀ c ∈ front, isBlank c) ∧ ∀ c ∈ behind, isBlank c
  starts : ∀ c, core.head? = some c → ¬ isBlank c
  ends : ∀ c, core.getLast? = some c → ¬ isBlank c

theorem dropWhile_isBlank_eq_iff {text rest : Text} :
    text.dropWhile isBlank = rest ↔
      (∃ front, text = front ++ rest ∧ ∀ c ∈ front, isBlank c) ∧
        ∀ c, rest.head? = some c → ¬ isBlank c := by
  constructor
  · rintro rfl
    refine ⟨⟨text.takeWhile isBlank, List.takeWhile_append_dropWhile.symm, ?_⟩, fun c first => ?_⟩
    · exact List.all_eq_true.mp List.all_takeWhile
    · have dropped := List.head?_dropWhile_not isBlank text
      rw [first] at dropped
      simpa using dropped
  · rintro ⟨⟨front, rfl, blank⟩, starts⟩
    rw [List.dropWhile_append_of_pos blank]
    cases rest with
    | nil => rfl
    | cons c rest => exact List.dropWhile_cons_of_neg (starts c rfl)

theorem trim_eq_iff {text core : Text} : trim text = core ↔ IsTrimmed text core := by
  constructor
  · rintro rfl
    obtain ⟨⟨front, cut, blankFront⟩, starts⟩ :=
      dropWhile_isBlank_eq_iff.mp (Eq.refl (text.dropWhile isBlank))
    obtain ⟨⟨behind, cut', blankBehind⟩, ends⟩ :=
      dropWhile_isBlank_eq_iff.mp (Eq.refl ((text.dropWhile isBlank).reverse.dropWhile isBlank))
    have rest_eq : text.dropWhile isBlank = trim text ++ behind.reverse := by
      rw [← List.reverse_inj, cut', trim]
      simp
    refine ⟨⟨front, behind.reverse, ?_, blankFront, ?_⟩, fun c first => starts c ?_, ?_⟩
    · rw [List.append_assoc, ← rest_eq]
      exact cut
    · simpa using blankBehind
    · rw [rest_eq, List.head?_append, first]
      rfl
    · simpa only [trim, List.getLast?_reverse] using ends
  · rintro ⟨⟨front, behind, rfl, blankFront, blankBehind⟩, starts, ends⟩
    cases core with
    | nil =>
        have blank : ∀ c ∈ front ++ behind, isBlank c :=
          List.forall_mem_append.mpr ⟨blankFront, blankBehind⟩
        have nothing : (front ++ [] ++ behind).dropWhile isBlank = [] :=
          dropWhile_isBlank_eq_iff.mpr ⟨⟨front ++ behind, by simp, blank⟩, nofun⟩
        rw [trim, nothing]
        rfl
    | cons c core =>
        have first : (front ++ (c :: core) ++ behind).dropWhile isBlank = (c :: core) ++ behind :=
          dropWhile_isBlank_eq_iff.mpr ⟨⟨front, List.append_assoc _ _ _, blankFront⟩, starts⟩
        have second : ((c :: core) ++ behind).reverse.dropWhile isBlank = (c :: core).reverse :=
          dropWhile_isBlank_eq_iff.mpr
            ⟨⟨behind.reverse, List.reverse_append, by simpa using blankBehind⟩,
              by simpa only [List.head?_reverse] using ends⟩
        rw [trim, first, second, List.reverse_reverse]
/-- The ASCII letters in lower case, every other character as it is. -/
def lowercase (text : Text) : Text :=
  text.map Char.toLower

end TokenMarkup.Text
