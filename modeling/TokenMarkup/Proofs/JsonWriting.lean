import TokenMarkup.Json.Writer
import TokenMarkup.Proofs.JsonGrammar

/-!
# What is written is JSON

The writer has no choices: it leaves out all blanks and escapes a character only where it has to.
What it writes is one of the spellings of the grammar, provided that the numbers of the value are
numbers (`isSpelledBy_write`), and natural numbers in decimal digits always are.
-/

namespace TokenMarkup.Json

/-! ## Strings -/

theorem hexDigit?_digitChar : ∀ n < 16, hexDigit? (Nat.digitChar n) = some n := by decide

theorem ofUnit_toNat {c : Char} (control : c.toNat < 0x20) : Piece.ofUnit c.toNat = .char c := by
  have noHalf : (isLeading c.toNat || isTrailing c.toNat) = false := by
    simp [isLeading, isTrailing]
    omega
  rw [Piece.ofUnit, noHalf, Char.ofNat_toNat]
  rfl

theorem spelling_writeChar (c : Char) : (Piece.char c).Spelling (writeChar c) := by
  unfold writeChar
  split
  case h_8 notQuote notBackslash _ _ _ _ _ =>
      split
      · next control =>
          have named : codeUnit? '0' '0' (Nat.digitChar (c.toNat / 16))
              (Nat.digitChar (c.toNat % 16)) = some c.toNat := by
            have high := hexDigit?_digitChar (c.toNat / 16) (by omega)
            have low := hexDigit?_digitChar (c.toNat % 16) (by omega)
            have zero : hexDigit? '0' = some 0 := rfl
            simp only [codeUnit?, zero, high, low, Option.bind_eq_bind, Option.bind_some]
            simp only [pure, Option.some.injEq]
            omega
          exact ofUnit_toNat control ▸ .unit named
      · next printable => exact .plain (Nat.not_lt.mp printable) notQuote notBackslash
  all_goals exact .letter rfl

theorem spell_map_char (text : Text) : spell (text.map .char) = some text := by
  induction text with
  | nil => rfl
  | cons c rest ih => rw [List.map_cons, spell, ih]; rfl

theorem writeString_some (value : String) :
    writeString (some value) = '"' :: ((value.toList.map writeChar).flatten ++ ['"']) :=
  show '"' :: (value.toList.flatMap writeChar ++ ['"']) = _ by rw [List.flatMap_def]

theorem spelling_writeString (literal : Literal) :
    (Symbol.string literal).Spelling (writeString literal) := by
  cases literal with
  | none =>
      have half := Piece.Spelling.unit (show codeUnit? 'd' '8' '0' '0' = some 0xD800 by decide)
      have alone : spell [.ofUnit 0xD800] = none := by decide
      have text : writeString none = ['"', '\\', 'u', 'd', '8', '0', '0', '"'] := by decide
      have whole := Symbol.Spelling.string (.cons half .nil)
      rw [alone, Option.map_none] at whole
      rw [text]
      simpa using whole
  | some value =>
      have spelled : List.Forall₂ Piece.Spelling (value.toList.map .char)
          (value.toList.map writeChar) := by
        rw [List.forall₂_map_left_iff, List.forall₂_map_right_iff, List.forall₂_same]
        exact fun c _ => spelling_writeChar c
      have whole := Symbol.Spelling.string spelled
      rw [spell_map_char, Option.map_some, String.ofList_toList] at whole
      rw [writeString_some]
      exact whole

/-! ## Numbers -/

theorem ne_zero_of_head?_toDigits (n : Nat) (positive : 0 < n) :
    (Nat.toDigits 10 n).head? ≠ some '0' := by
  induction n using Nat.strongRecOn with
  | ind n ih =>
      by_cases short : n < 10
      · rw [Nat.toDigits_of_lt_base short]
        simp
        omega
      · rw [Nat.toDigits_of_base_le (by decide) (by omega),
          List.head?_append_of_ne_nil _ Nat.toDigits_ne_nil]
        exact ih (n / 10) (by omega) (by omega)

theorem isNumber_toDigits (n : Nat) : IsNumber (Nat.toDigits 10 n) := by
  have digits : IsDigits (Nat.toDigits 10 n) :=
    ⟨Nat.toDigits_ne_nil, fun c member =>
      Nat.isDigit_of_mem_toDigits (by decide) (by decide) member⟩
  have whole : IsWhole (Nat.toDigits 10 n) := by
    refine ⟨digits, fun zero => ?_⟩
    obtain rfl | positive := Nat.eq_zero_or_pos n
    · exact Nat.toDigits_zero 10
    · exact absurd zero (ne_zero_of_head?_toDigits n positive)
  exact ⟨[], _, [], [], by simp, whole, .inl rfl, .inl rfl, by simp⟩

theorem nat?_toDigits (n : Nat) : nat? (Nat.toDigits 10 n) = some n := by
  have digits : (Nat.toDigits 10 n).all Char.isDigit := by
    rw [List.all_eq_true]
    exact fun c member => Nat.isDigit_of_mem_toDigits (by decide) (by decide) member
  have value : ofDigits (Nat.toDigits 10 n) = n := Nat.ofDigitChars_ten_toDigits
  simp [nat?, digits, value]

/-! ## Values -/

/-- Whether every number that a value holds is one. -/
def HasNumbers (value : Json) : Prop :=
  ∀ literal, .number literal ∈ value.symbols → IsNumber literal

/-- Whether what is written for a value spells it, with whatever may stand behind a value. -/
def IsWritten (value : Json) : Prop :=
  value.HasNumbers → ∀ {symbols : List Symbol} {text : Text}, EndsNumber text →
    Spells symbols text → Spells (value.symbols ++ symbols) (value.write ++ text)

theorem Spells.cons {symbol : Symbol} {spelling : Text} {symbols : List Symbol} {text : Text}
    (spelled : symbol.Spelling spelling) (other : ∀ literal, symbol ≠ .number literal)
    (row : Spells symbols text) : Spells (symbol :: symbols) (spelling ++ text) :=
  .symbol spelled (fun literal same => absurd same (other literal)) row

theorem endsNumber_cons {c : Char} (closing : c ∈ [',', ']', '\x7d']) (rest : Text) :
    EndsNumber (c :: rest) := by
  rintro _ ⟨⟩
  exact .inr closing

theorem spells_writeItems {items : List Json} (each : ∀ item ∈ items, IsWritten item)
    (numbers : ∀ literal, .number literal ∈ itemSymbols items → IsNumber literal)
    {symbols : List Symbol} {text : Text} (ended : EndsNumber text) (row : Spells symbols text) :
    Spells (itemSymbols items ++ symbols) (writeItems items ++ text) := by
  induction items with
  | nil => exact row
  | cons item rest ih =>
      obtain ⟨first, others⟩ := List.forall_mem_cons.mp each
      cases rest with
      | nil => exact first numbers ended row
      | cons next rest =>
          simp only [itemSymbols, List.mem_append, List.mem_cons, reduceCtorEq, false_or] at numbers
          have later := ih others fun literal member => numbers literal (.inr member)
          have comma := Spells.cons .comma (by simp) later
          have whole := first (fun literal member => numbers literal (.inl member))
            (endsNumber_cons (by simp) _) comma
          simpa [itemSymbols, writeItems] using whole

theorem spells_writeMembers {members : List (Literal × Json)}
    (each : ∀ member ∈ members, IsWritten member.2)
    (numbers : ∀ literal, .number literal ∈ memberSymbols members → IsNumber literal)
    {symbols : List Symbol} {text : Text} (ended : EndsNumber text) (row : Spells symbols text) :
    Spells (memberSymbols members ++ symbols) (writeMembers members ++ text) := by
  induction members with
  | nil => exact row
  | cons member rest ih =>
      obtain ⟨key, value⟩ := member
      obtain ⟨first, others⟩ := List.forall_mem_cons.mp each
      cases rest with
      | nil =>
          simp only [memberSymbols, List.mem_cons, reduceCtorEq, false_or] at numbers
          have colon := Spells.cons .colon (by simp) (first numbers ended row)
          have whole := Spells.cons (spelling_writeString key) (by simp) colon
          simpa [memberSymbols, writeMembers] using whole
      | cons next rest =>
          simp only [memberSymbols, List.mem_append, List.mem_cons, reduceCtorEq,
            false_or] at numbers
          have later := ih others fun literal member => numbers literal (.inr member)
          have comma := Spells.cons .comma (by simp) later
          have valued := first (fun literal member => numbers literal (.inl member))
            (endsNumber_cons (by simp) _) comma
          have colon := Spells.cons .colon (by simp) valued
          have whole := Spells.cons (spelling_writeString key) (by simp) colon
          simpa [memberSymbols, writeMembers] using whole

theorem isWritten (value : Json) : IsWritten value := by
  induction value using inside_induction with
  | null => exact fun _ _ _ _ row => .cons .null (by simp) row
  | bool value =>
      intro _ _ _ _ row
      cases value with
      | false => exact .cons .false (by simp) row
      | true => exact .cons .true (by simp) row
  | number literal =>
      intro numbers _ _ ended row
      exact .symbol (.number (numbers literal (by simp [symbols]))) (fun _ _ => ended) row
  | string literal => exact fun _ _ _ _ row => .cons (spelling_writeString literal) (by simp) row
  | array items each =>
      intro numbers _ _ _ row
      have close := Spells.cons .closeArray (by simp) row
      have inside := spells_writeItems each (fun literal member => numbers literal (by
        simp [symbols, member])) (endsNumber_cons (by simp) _) close
      have whole := Spells.cons .openArray (by simp) inside
      simpa [symbols, write] using whole
  | object members each =>
      intro numbers _ _ _ row
      have close := Spells.cons .closeObject (by simp) row
      have inside := spells_writeMembers each (fun literal member => numbers literal (by
        simp [symbols, member])) (endsNumber_cons (by simp) _) close
      have whole := Spells.cons .openObject (by simp) inside
      simpa [symbols, write] using whole

theorem isSpelledBy_write {value : Json} (numbers : value.HasNumbers) :
    value.IsSpelledBy value.write := by
  have nothing : EndsNumber [] := by simp [EndsNumber]
  simpa [IsSpelledBy] using isWritten value numbers nothing .done

end TokenMarkup.Json
