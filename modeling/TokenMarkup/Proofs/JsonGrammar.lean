import Mathlib.Data.List.Forall2
import TokenMarkup.Json.Reader

/-!
# The grammar of JSON texts

A JSON text spells the symbols of a value one after the other, with blanks between them as one
likes. `Json.symbols` lists the symbols of a value and `Json.Spells` says how a row of symbols can
be spelled: a character of a string has up to three spellings, a number only the one that the value
holds. The reader knows nothing of values before it is done, so its two halves are taken one by one.
`symbols?_of_spells` says that it finds the symbols of every spelling, and `run_symbols` that its
machine makes the value of the symbols, inside whatever is open around it. Together they say that
every text of a value is read as that value: `parse?_of_isSpelledBy`.
-/

namespace TokenMarkup.Json

/-- What holds of a value if it holds of the values inside it holds of every value. -/
@[elab_as_elim]
theorem inside_induction {motive : Json → Prop} (null : motive .null)
    (bool : ∀ value, motive (.bool value)) (number : ∀ literal, motive (.number literal))
    (string : ∀ literal, motive (.string literal))
    (array : ∀ items, (∀ item ∈ items, motive item) → motive (.array items))
    (object : ∀ members, (∀ member ∈ members, motive member.2) → motive (.object members))
    (value : Json) : motive value := by
  match value with
  | .null => exact null
  | .bool value => exact bool value
  | .number literal => exact number literal
  | .string literal => exact string literal
  | .array items =>
      exact array items fun item member =>
        inside_induction null bool number string array object item
  | .object members =>
      exact object members fun member inside =>
        inside_induction null bool number string array object member.2
termination_by sizeOf value
decreasing_by
  · have := List.sizeOf_lt_of_mem member
    simp +arith [*]
    omega
  · have := List.sizeOf_lt_of_mem inside
    have : sizeOf member.2 < sizeOf member := by cases member; simp +arith
    simp +arith
    omega

/-! ## Symbols of a value -/

mutual

/-- The symbols of a value, in the order of its text. -/
def symbols : Json → List Symbol
  | null => [.null]
  | bool value => [.bool value]
  | number literal => [.number literal]
  | string literal => [.string literal]
  | array items => .openArray :: (itemSymbols items ++ [.closeArray])
  | object members => .openObject :: (memberSymbols members ++ [.closeObject])

/-- The symbols of values with commas between them. -/
def itemSymbols : List Json → List Symbol
  | [] => []
  | [item] => item.symbols
  | item :: next :: rest => item.symbols ++ .comma :: itemSymbols (next :: rest)

/-- The symbols of members with commas between them. -/
def memberSymbols : List (Literal × Json) → List Symbol
  | [] => []
  | [(key, value)] => .string key :: .colon :: value.symbols
  | (key, value) :: next :: rest =>
    .string key :: .colon :: (value.symbols ++ .comma :: memberSymbols (next :: rest))

end

namespace State

/-- The state behind a row of symbols. -/
def run (state : State) (symbols : List Symbol) : Option State := symbols.foldlM step state

theorem run_append (state : State) (first second : List Symbol) :
    state.run (first ++ second) = (state.run first).bind (run · second) := List.foldlM_append

/-- Whether the machine makes a value of its symbols, whatever is open around it. -/
def Makes (value : Json) : Prop :=
  ∀ frames, (due frames).run value.symbols = some (complete value frames)

/-- No value begins with a closing bracket, so the items of an array are read from its opening
bracket on as they are behind a comma. -/
theorem run_firstItem (frames : List Frame) (item : Json) (rest : List Json) :
    (firstItem frames).run (itemSymbols (item :: rest)) =
      (due (.array [] :: frames)).run (itemSymbols (item :: rest)) := by
  have first : (firstItem frames).run item.symbols =
      (due (.array [] :: frames)).run item.symbols := by
    cases item <;> rfl
  cases rest with
  | nil => simpa only [itemSymbols] using first
  | cons next rest => simp only [itemSymbols, run_append, first]

theorem run_itemSymbols {item : Json} {rest : List Json}
    (each : ∀ inside ∈ item :: rest, Makes inside) (before : List Json) (frames : List Frame) :
    (due (.array before :: frames)).run (itemSymbols (item :: rest) ++ [.closeArray]) =
      some (complete (.array (before.reverse ++ item :: rest)) frames) := by
  induction rest generalizing item before with
  | nil =>
      have first := each item List.mem_cons_self
      rw [itemSymbols, run_append, first, ← List.reverse_cons]
      rfl
  | cons next rest ih =>
      obtain ⟨first, others⟩ := List.forall_mem_cons.mp each
      rw [itemSymbols, List.append_assoc, run_append, first]
      exact (ih others (item :: before)).trans (by simp)

theorem run_memberSymbols {key : Literal} {value : Json} {rest : List (Literal × Json)}
    (each : ∀ inside ∈ (key, value) :: rest, Makes inside.2) (before : List (Literal × Json))
    (frames : List Frame) :
    (nextMember before frames).run (memberSymbols ((key, value) :: rest) ++ [.closeObject]) =
      some (complete (.object (before.reverse ++ (key, value) :: rest)) frames) := by
  have keyed : ∀ symbols, (nextMember before frames).run (.string key :: .colon :: symbols) =
      (due (.object before key :: frames)).run symbols := fun _ => rfl
  induction rest generalizing key value before with
  | nil =>
      have first := each (key, value) List.mem_cons_self
      rw [memberSymbols, List.cons_append, List.cons_append, keyed, run_append, first,
        ← List.reverse_cons]
      rfl
  | cons next rest ih =>
      obtain ⟨first, others⟩ := List.forall_mem_cons.mp each
      rw [memberSymbols, List.cons_append, List.cons_append, keyed, List.append_assoc, run_append,
        first]
      exact (ih others ((key, value) :: before) fun _ => rfl).trans (by simp)

theorem run_symbols (value : Json) : Makes value := by
  induction value using inside_induction with
  | null => exact fun _ => rfl
  | bool => exact fun _ => rfl
  | number => exact fun _ => rfl
  | string => exact fun _ => rfl
  | array items each =>
      intro frames
      cases items with
      | nil => rfl
      | cons item rest =>
          have opened : (due frames).run (array (item :: rest)).symbols =
              (firstItem frames).run (itemSymbols (item :: rest) ++ [.closeArray]) := rfl
          rw [opened, run_append, run_firstItem, ← run_append]
          exact run_itemSymbols each [] frames
  | object members each =>
      intro frames
      cases members with
      | nil => rfl
      | cons member rest => cases rest <;> exact run_memberSymbols each [] frames

end State

/-! ## Spellings of symbols -/

/-- How a piece of a string can be spelled. -/
inductive Piece.Spelling : Piece → Text → Prop
  /-- A character stands for itself, unless it is a quote, a backslash or a control character. -/
  | plain {c : Char} : 0x20 ≤ c.toNat → c ≠ '"' → c ≠ '\\' → Spelling (.char c) [c]
  /-- A few characters have a letter of their own. -/
  | letter {letter c : Char} : escaped? letter = some c → Spelling (.char c) ['\\', letter]
  /-- Four digits can name any code unit. -/
  | unit {a b c d : Char} {unit : Nat} : codeUnit? a b c d = some unit →
      Spelling (.ofUnit unit) ['\\', 'u', a, b, c, d]

theorem Piece.Spelling.pieces?_append {piece : Piece} {spelling : Text}
    (spelled : piece.Spelling spelling) (rest : Text) :
    pieces? (spelling ++ rest) =
      (pieces? rest).bind fun found => some (piece :: found.1, found.2) := by
  cases spelled with
  | @plain c printable notQuote notBackslash =>
      rw [List.singleton_append, pieces?]
      · rw [if_neg (by simpa [notBackslash] using printable)]
        rfl
      · exact notQuote
      · rintro a b c' d tail rfl
        exact absurd rfl notBackslash
      · rintro letter tail rfl
        exact absurd rfl notBackslash
  | @letter letter c escaped =>
      unfold escaped? at escaped
      split at escaped <;> cases escaped <;> rfl
  | @unit a b c d unit named =>
      simp only [List.cons_append, List.nil_append, pieces?, named]
      rfl

theorem pieces?_flatten_append {pieces : List Piece} {spellings : List Text}
    (spelled : List.Forall₂ Piece.Spelling pieces spellings) (rest : Text) :
    pieces? (spellings.flatten ++ '"' :: rest) = some (pieces, rest) := by
  induction spelled with
  | nil => rfl
  | cons first _ ih =>
      rw [List.flatten_cons, List.append_assoc, first.pieces?_append, ih]
      rfl

/-! ### Numbers -/

/-- A row of at least one digit. -/
def IsDigits (digits : Text) : Prop := digits ≠ [] ∧ ∀ c ∈ digits, c.isDigit

/-- The digits before the point: a zero alone, or digits that begin with another one. -/
def IsWhole (whole : Text) : Prop := IsDigits whole ∧ (whole.head? = some '0' → whole = ['0'])

/-- Nothing, or a point with digits behind it. -/
def IsFraction (fraction : Text) : Prop :=
  fraction = [] ∨ ∃ digits, IsDigits digits ∧ fraction = '.' :: digits

/-- Nothing, or a mark with digits behind it, which may have a sign. -/
def IsExponent (exponent : Text) : Prop :=
  exponent = [] ∨ ∃ mark sign digits, mark ∈ ['e', 'E'] ∧ sign ∈ [[], ['+'], ['-']] ∧
    IsDigits digits ∧ exponent = mark :: (sign ++ digits)

/-- Whether a text is a number. -/
def IsNumber (literal : Text) : Prop :=
  ∃ sign whole fraction exponent, sign ∈ [[], ['-']] ∧ IsWhole whole ∧ IsFraction fraction ∧
    IsExponent exponent ∧ literal = sign ++ whole ++ fraction ++ exponent

/-- Whether a number is over where this text begins: at the end, at a blank, at a comma or at a
closing bracket. -/
def EndsNumber (text : Text) : Prop :=
  ∀ c ∈ text.head?, isSpace c ∨ c ∈ [',', ']', '\x7d']

theorem digits_append {found rest : Text} (digit : ∀ c ∈ found, c.isDigit)
    (stops : ∀ c ∈ rest.head?, ¬ c.isDigit) : digits (found ++ rest) = (found, rest) := by
  have nothing : digits rest = ([], rest) := by
    cases rest with
    | nil => rfl
    | cons c tail => simp [digits, stops c rfl]
  rw [digits, Prod.mk.injEq] at nothing
  rw [digits, List.takeWhile_append_of_pos digit, List.dropWhile_append_of_pos digit, nothing.1,
    nothing.2, List.append_nil]

theorem sign_append {signs : List Char} {sign rest : Text}
    (isSign : sign = [] ∨ ∃ c ∈ signs, sign = [c]) (stops : ∀ c ∈ rest.head?, c ∉ signs) :
    Json.sign signs (sign ++ rest) = (sign, rest) := by
  obtain rfl | ⟨c, member, rfl⟩ := isSign
  · cases rest with
    | nil => rfl
    | cons c tail => simp [Json.sign, stops c rfl]
  · simp [Json.sign, member]

theorem whole?_append {whole rest : Text} (isWhole : IsWhole whole)
    (stops : ∀ c ∈ rest.head?, ¬ c.isDigit) : whole? (whole ++ rest) = some (whole, rest) := by
  obtain ⟨⟨notEmpty, digit⟩, zero⟩ := isWhole
  rw [whole?, digits_append digit stops]
  split <;> simp_all

theorem fraction?_append {fraction rest : Text} (isFraction : IsFraction fraction)
    (stops : ∀ c ∈ rest.head?, ¬ c.isDigit ∧ c ≠ '.') :
    fraction? (fraction ++ rest) = some (fraction, rest) := by
  obtain rfl | ⟨found, ⟨notEmpty, digit⟩, rfl⟩ := isFraction
  · rw [List.nil_append]
    unfold fraction?
    split
    · exact absurd rfl (stops '.' rfl).2
    · rfl
  · rw [List.cons_append, fraction?, digits_append digit fun c first => (stops c first).1]
    cases found with
    | nil => exact absurd rfl notEmpty
    | cons c tail => rfl

/-- A digit is neither a point, nor a mark of an exponent, nor a sign. -/
theorem not_mem_of_isDigit {c : Char} (digit : c.isDigit) : c ∉ ['.', 'e', 'E', '+', '-'] := by
  intro member
  simp only [List.mem_cons, List.not_mem_nil, or_false] at member
  rcases member with rfl | rfl | rfl | rfl | rfl <;> exact absurd digit (by decide)

theorem exponent?_append {exponent rest : Text} (isExponent : IsExponent exponent)
    (stops : ∀ c ∈ rest.head?, ¬ c.isDigit ∧ c ∉ ['e', 'E']) :
    exponent? (exponent ++ rest) = some (exponent, rest) := by
  obtain rfl | ⟨mark, sign, found, isMark, isSign, ⟨notEmpty, digit⟩, rfl⟩ := isExponent
  · cases rest with
    | nil => rfl
    | cons c tail =>
      have := (stops c rfl).2
      simp_all [exponent?]
  · have read := digits_append digit fun c first => (stops c first).1
    obtain ⟨c, tail, rfl⟩ := List.exists_cons_of_ne_nil notEmpty
    have signed : Json.sign ['+', '-'] (sign ++ (c :: tail ++ rest)) =
        (sign, c :: tail ++ rest) := by
      refine sign_append (by simpa using isSign) ?_
      rintro _ ⟨⟩
      have := not_mem_of_isDigit (digit c List.mem_cons_self)
      simp_all
    rw [List.cons_append, List.append_assoc, exponent?, if_pos (by simpa using isMark), signed]
    simp only [read]

theorem IsExponent.stops {exponent rest : Text} (isExponent : IsExponent exponent)
    (stops : ∀ c ∈ rest.head?, ¬ c.isDigit ∧ c ≠ '.') :
    ∀ c ∈ (exponent ++ rest).head?, ¬ c.isDigit ∧ c ≠ '.' := by
  obtain rfl | ⟨mark, sign, digits, isMark, -, -, rfl⟩ := isExponent
  · exact stops
  · rintro _ ⟨⟩
    simp only [List.mem_cons, List.not_mem_nil, or_false] at isMark
    obtain rfl | rfl := isMark <;> decide

theorem IsFraction.stops {fraction rest : Text} (isFraction : IsFraction fraction)
    (stops : ∀ c ∈ rest.head?, ¬ c.isDigit) : ∀ c ∈ (fraction ++ rest).head?, ¬ c.isDigit := by
  obtain rfl | ⟨digits, -, rfl⟩ := isFraction
  · exact stops
  · rintro _ ⟨⟩
    decide

theorem IsWhole.unsigned {whole : Text} (isWhole : IsWhole whole) (rest : Text) :
    ∀ c ∈ (whole ++ rest).head?, c ∉ ['-'] := by
  obtain ⟨c, tail, rfl⟩ := List.exists_cons_of_ne_nil isWhole.1.1
  rintro _ ⟨⟩
  have := not_mem_of_isDigit (isWhole.1.2 c List.mem_cons_self)
  simp_all

theorem EndsNumber.stops {rest : Text} (ended : EndsNumber rest) :
    ∀ c ∈ rest.head?, ¬ c.isDigit ∧ c ≠ '.' ∧ c ∉ ['e', 'E'] := by
  intro c first
  have := ended c first
  simp only [isSpace, Bool.or_eq_true, beq_iff_eq, List.mem_cons, List.not_mem_nil,
    or_false] at this
  rcases this with (((rfl | rfl) | rfl) | rfl) | rfl | rfl | rfl <;> decide

theorem number?_append {literal rest : Text} (isNumber : IsNumber literal)
    (ended : EndsNumber rest) : number? (literal ++ rest) = some (literal, rest) := by
  obtain ⟨sign, whole, fraction, exponent, isSign, isWhole, isFraction, isExponent, rfl⟩ := isNumber
  have behind := ended.stops
  have behindFraction := isExponent.stops fun c first => ⟨(behind c first).1, (behind c first).2.1⟩
  have behindWhole := isFraction.stops fun c first => (behindFraction c first).1
  have readSign : Json.sign ['-'] (sign ++ (whole ++ (fraction ++ (exponent ++ rest)))) = _ :=
    sign_append (by simpa using isSign) (isWhole.unsigned _)
  have readExponent := exponent?_append isExponent fun c first =>
    ⟨(behind c first).1, (behind c first).2.2⟩
  simp only [number?, List.append_assoc, readSign, whole?_append isWhole behindWhole,
    fraction?_append isFraction behindFraction, readExponent, Option.bind_eq_bind,
    Option.bind_some]
  rfl

/-! ### Rows of symbols -/

/-- How a symbol can be spelled. -/
inductive Symbol.Spelling : Symbol → Text → Prop
  | openArray : Spelling .openArray ['[']
  | closeArray : Spelling .closeArray [']']
  | openObject : Spelling .openObject ['\x7b']
  | closeObject : Spelling .closeObject ['\x7d']
  | comma : Spelling .comma [',']
  | colon : Spelling .colon [':']
  | null : Spelling .null ['n', 'u', 'l', 'l']
  | true : Spelling (.bool true) ['t', 'r', 'u', 'e']
  | false : Spelling (.bool false) ['f', 'a', 'l', 's', 'e']
  | number {literal : Text} : IsNumber literal → Spelling (.number literal) literal
  | string {pieces : List Piece} {spellings : List Text} :
      List.Forall₂ Piece.Spelling pieces spellings →
      Spelling (.string ((spell pieces).map String.ofList)) ('"' :: (spellings.flatten ++ ['"']))

/-- How a row of symbols can be spelled: one after the other, with blanks wherever one likes. -/
inductive Spells : List Symbol → Text → Prop
  | done : Spells [] []
  | blank {c : Char} {symbols : List Symbol} {text : Text} : isSpace c → Spells symbols text →
      Spells symbols (c :: text)
  | symbol {symbol : Symbol} {spelling : Text} {symbols : List Symbol} {text : Text} :
      symbol.Spelling spelling → (∀ literal, symbol = .number literal → EndsNumber text) →
      Spells symbols text → Spells (symbol :: symbols) (spelling ++ text)

theorem symbol?_of_isSpace {c : Char} (blank : isSpace c) (rest : Text) :
    symbol? (c :: rest) = none := by
  simp only [isSpace, Bool.or_eq_true, beq_iff_eq] at blank
  rcases blank with ((rfl | rfl) | rfl) | rfl <;> rfl

/-- Nothing that begins like a number begins like another symbol. -/
theorem symbol?_of_number? {text literal rest : Text}
    (read : number? text = some (literal, rest)) :
    symbol? text = some (.number literal, rest) := by
  unfold symbol?
  split
  case h_11 => rw [read]; rfl
  all_goals exact absurd (show none = some (literal, rest) from read) (by simp)

theorem Symbol.Spelling.symbol?_append {symbol : Symbol} {spelling rest : Text}
    (spelled : symbol.Spelling spelling)
    (ended : ∀ literal, symbol = .number literal → EndsNumber rest) :
    symbol? (spelling ++ rest) = some (symbol, rest) := by
  cases spelled with
  | openArray => rfl
  | closeArray => rfl
  | openObject => rfl
  | closeObject => rfl
  | comma => rfl
  | colon => rfl
  | null => rfl
  | true => rfl
  | false => rfl
  | number isNumber => exact symbol?_of_number? (number?_append isNumber (ended _ rfl))
  | string pieces =>
      rw [List.cons_append, List.append_assoc, List.singleton_append, symbol?,
        pieces?_flatten_append pieces]
      rfl

theorem symbols?_of_symbol? {text behind : Text} {symbol : Symbol}
    (read : symbol? text = some (symbol, behind)) :
    symbols? text = (symbols? behind).map (symbol :: ·) := by
  cases text with
  | nil => cases (show none = some (symbol, behind) from read)
  | cons c rest =>
      rw [symbols?]
      split
      · next blank =>
        rw [symbol?_of_isSpace blank] at read
        cases read
      · split
        · next missed =>
          rw [missed] at read
          cases read
        · next found =>
          rw [found] at read
          cases read
          rfl

theorem symbols?_of_spells {symbols : List Symbol} {text : Text} (spells : Spells symbols text) :
    symbols? text = some symbols := by
  induction spells with
  | done => rw [symbols?]
  | blank blank _ ih => rw [symbols?, if_pos blank, ih]
  | symbol spelled ended _ ih => rw [symbols?_of_symbol? (spelled.symbol?_append ended), ih]; rfl

/-! ## Reading -/

/-- Whether a text is JSON for a value. -/
def IsSpelledBy (value : Json) (text : Text) : Prop := Spells value.symbols text

theorem parse?_of_isSpelledBy {value : Json} {text : Text} (spelled : value.IsSpelledBy text) :
    parse? text = some value := by
  have made : value.symbols.foldlM State.step (.due []) = some (.complete value []) :=
    State.run_symbols value []
  rw [parse?, symbols?_of_spells spelled, Option.bind_eq_bind, Option.bind_some, ofSymbols?, made]
  rfl

end TokenMarkup.Json
