import TokenMarkup.Legend
import TokenMarkup.Token.Order

/-!
# Relative token streams

On the wire a token is five numbers: how many lines below the previous token it starts, how many
units to the right (from the previous start on the same line, else from the start of the line), its
length, its type index and its modifier bits. `Wire.decode` gives every token its absolute place,
and `Wire.encode` goes the other way.
-/

namespace TokenMarkup

/-- A token on the wire, placed relative to the one in front of it. -/
structure RelativeToken where
  deltaLine : UInt32
  deltaStart : UInt32
  length : UInt32
  type : UInt32
  modifiers : UInt32
deriving DecidableEq, Repr

namespace Wire

/-- Entries per token. -/
def stride : Nat := 5

/-- The entries of a list of relative tokens. -/
def flatten (tokens : List RelativeToken) : List UInt32 :=
  tokens.flatMap fun token =>
    [token.deltaLine, token.deltaStart, token.length, token.type, token.modifiers]

/-- The relative tokens of a list of entries. Entries behind the last full group are left out. -/
def groups : List UInt32 → List RelativeToken
  | deltaLine :: deltaStart :: length :: type :: modifiers :: rest =>
    ⟨deltaLine, deltaStart, length, type, modifiers⟩ :: groups rest
  | _ => []

/-! ## From relative to absolute -/

/-- The bits that are set in an entry, lowest first. -/
def setBits (entry : UInt32) : List Nat :=
  (List.range 32).filter fun bit => entry.toNat.testBit bit

/-- The type name of token `ordinal`. -/
def resolveType (legend : Legend) (ordinal : Nat) (index : UInt32) : Except Fault String :=
  match legend.type? index.toNat with
  | some name => .ok name
  | none =>
    .error (.malformedStream (ordinal * stride + 3)
      (.undefinedType ordinal index.toNat legend.types.length))

/-- The name of one modifier bit of token `ordinal`. -/
def resolveBit (legend : Legend) (ordinal : Nat) (bit : Nat) : Except Fault String :=
  match legend.modifier? bit with
  | some name => .ok name
  | none =>
    .error (.malformedStream (ordinal * stride + 4)
      (.undefinedModifier ordinal bit legend.modifiers.length))

/-- The modifiers of token `ordinal`, lowest bit first. -/
def resolveModifiers (legend : Legend) (ordinal : Nat) (entry : UInt32) : Except Fault Modifiers :=
  (setBits entry).foldlM (fun set bit => set.insert <$> resolveBit legend ordinal bit) .empty

/-- The absolute tokens of what is left of a stream, given the number of the next token and where
the one in front of it starts. -/
def resolve (legend : Legend) (ordinal line start : Nat) :
    List RelativeToken → Except Fault (List Token)
  | [] => .ok []
  | token :: rest => do
    let nextLine := line + token.deltaLine.toNat
    let nextStart :=
      if token.deltaLine = 0 then start + token.deltaStart.toNat else token.deltaStart.toNat
    let type ← resolveType legend ordinal token.type
    let modifiers ← resolveModifiers legend ordinal token.modifiers
    let others ← resolve legend (ordinal + 1) nextLine nextStart rest
    return ⟨nextLine, nextStart, token.length.toNat, type, modifiers⟩ :: others

/-- The absolute tokens of a stream. Their order is not looked at. -/
def decode (stream : List UInt32) (legend : Legend) : Except Fault (List Token) :=
  if stream.length % stride ≠ 0 then
    .error (.malformedStream (stream.length - stream.length % stride)
      (.ragged stream.length stride))
  else resolve legend 0 0 0 (groups stream)

/-! ## From absolute to relative -/

/-- A number as the entry at `position`. -/
def entry (value position : Nat) : Except Fault UInt32 :=
  if value < UInt32.size then .ok (UInt32.ofNat value)
  else .error (.malformedStream position (.oversized value))

/-- The index of a type name, for token `ordinal`. -/
def typeEntry (legend : Legend) (ordinal : Nat) (name : String) : Except Fault UInt32 :=
  match legend.typeIndex? name with
  | some index => .ok (UInt32.ofNat index)
  | none => .error (.malformedStream (ordinal * stride + 3) (.unlistedType name))

/-- The bit of a modifier name, for token `ordinal`. An entry has room for 32 bits. -/
def modifierBit (legend : Legend) (ordinal : Nat) (name : String) : Except Fault Nat :=
  match legend.modifierBit? name with
  | some bit =>
    if bit < 32 then .ok bit
    else .error (.malformedStream (ordinal * stride + 4) (.unlistedModifier name))
  | none => .error (.malformedStream (ordinal * stride + 4) (.unlistedModifier name))

/-- The entry that has a bit for each modifier of token `ordinal`. -/
def modifiersEntry (legend : Legend) (ordinal : Nat) (modifiers : Modifiers) :
    Except Fault UInt32 :=
  modifiers.names.foldlM (fun bits name => do
    let bit ← modifierBit legend ordinal name
    return bits ||| (1 <<< UInt32.ofNat bit)) 0

/-- The relative tokens of what is left of a token list, given the number of the next token and
where the one in front of it starts. -/
def relate (legend : Legend) (ordinal line start : Nat) :
    List Token → Except Fault (List RelativeToken)
  | [] => .ok []
  | token :: rest => do
    if token.line < line ∨ (token.line = line ∧ token.start < start) then
      throw (.orderingViolation .semantic ordinal token.line token.start line start)
    let deltaLine := token.line - line
    let deltaStart := if deltaLine = 0 then token.start - start else token.start
    let type ← typeEntry legend ordinal token.type
    let modifiers ← modifiersEntry legend ordinal token.modifiers
    let lineEntry ← entry deltaLine (ordinal * stride)
    let startEntry ← entry deltaStart (ordinal * stride + 1)
    let lengthEntry ← entry token.length (ordinal * stride + 2)
    let others ← relate legend (ordinal + 1) token.line token.start rest
    return ⟨lineEntry, startEntry, lengthEntry, type, modifiers⟩ :: others

/-- The stream of a token list, which has to be sorted by line and start. -/
def encode (tokens : List Token) (legend : Legend) : Except Fault (List UInt32) :=
  flatten <$> relate legend 0 0 0 tokens

end Wire

end TokenMarkup
