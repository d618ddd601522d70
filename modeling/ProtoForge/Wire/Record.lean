import ProtoForge.Wire.Varint

/-!
# Records

A record is a message without its schema: numbered values in ascending order
of their field numbers, repeated values next to each other in their own order.
Its encoding writes the entries one after the other.
-/
namespace ProtoForge.Wire

/-- How the bytes of a value are laid out. -/
inductive WireType where
  | varint
  | sixtyFourBit
  | lengthDelimited
  | startGroup
  | endGroup
  | thirtyTwoBit
  deriving DecidableEq, Repr

namespace WireType

/-- The number of a wire type in a key. -/
def code : WireType → Nat
  | varint => 0
  | sixtyFourBit => 1
  | lengthDelimited => 2
  | startGroup => 3
  | endGroup => 4
  | thirtyTwoBit => 5

/-- The wire type of a number in a key. -/
def ofCode? : Nat → Option WireType
  | 0 => some varint
  | 1 => some sixtyFourBit
  | 2 => some lengthDelimited
  | 3 => some startGroup
  | 4 => some endGroup
  | 5 => some thirtyTwoBit
  | _ => none

/-- The name of a wire type in messages. -/
def name : WireType → String
  | varint => "Varint"
  | sixtyFourBit => "SixtyFourBit"
  | lengthDelimited => "LengthDelimited"
  | startGroup => "StartGroup"
  | endGroup => "EndGroup"
  | thirtyTwoBit => "ThirtyTwoBit"

@[simp] theorem ofCode?_code (w : WireType) : ofCode? w.code = some w := by cases w <;> rfl

end WireType

/-- The value of one field entry. -/
inductive Value where
  | varint (v : UInt64)
  | fixed64 (bits : UInt64)
  | text (s : String)
  | bytes (b : Bytes)
  | packed (vs : List UInt64)
  | message (entries : List (Nat × Value))
  deriving Inhabited

/-- Numbered values in ascending order of their numbers. -/
abbrev Record := List (Nat × Value)

namespace Record

/-- The values of a field, in order. -/
def all (r : Record) (number : Nat) : List Value :=
  r.filterMap fun e => if e.1 = number then some e.2 else none

/-- The value of a field that occurs once. -/
def get? (r : Record) (number : Nat) : Option Value := (r.all number).head?

/-- Adds a value after those of the same and of lower numbers. -/
def push (r : Record) (number : Nat) (v : Value) : Record :=
  r.takeWhile (·.1 ≤ number) ++ (number, v) :: r.dropWhile (·.1 ≤ number)

/-- Replaces the values of a field by one. -/
def set (r : Record) (number : Nat) (v : Value) : Record :=
  push (r.filter (·.1 ≠ number)) number v

/-- The text of a field, if it is set to one. -/
def text? (r : Record) (number : Nat) : Option String :=
  match r.get? number with
  | some (.text s) => some s
  | _ => none

/-- The texts of a repeated field. -/
def texts (r : Record) (number : Nat) : List String :=
  (r.all number).filterMap fun
    | .text s => some s
    | _ => none

/-- The number of a field, if it is set to one. -/
def varint? (r : Record) (number : Nat) : Option UInt64 :=
  match r.get? number with
  | some (.varint v) => some v
  | _ => none

/-- The message of a field, if it is set to one. -/
def message? (r : Record) (number : Nat) : Option Record :=
  match r.get? number with
  | some (.message m) => some m
  | _ => none

/-- The messages of a repeated field. -/
def messages (r : Record) (number : Nat) : List Record :=
  (r.all number).filterMap fun
    | .message m => some m
    | _ => none

end Record

/-- The key of an entry: its field number and the layout of its value. -/
def encodeKey (number : Nat) (w : WireType) : Bytes := encodeVarint (8 * number + w.code)

/-- A byte string after its length. -/
def encodeDelimited (b : Bytes) : Bytes := encodeVarint b.length ++ b

/-- A varint of a machine word. -/
def encodeWord (v : UInt64) : Bytes := encodeVarint v.toNat

/-- The layout of a value. -/
def Value.wireType : Value → WireType
  | .varint _ => .varint
  | .fixed64 _ => .sixtyFourBit
  | _ => .lengthDelimited

mutual

/-- The bytes of a value without its key. -/
def Value.encode : Value → Bytes
  | .varint v => encodeWord v
  | .fixed64 bits => Bytes.ofNat64 bits.toNat
  | .text s => encodeDelimited (Bytes.ofText s)
  | .bytes b => encodeDelimited b
  | .packed vs => encodeDelimited (vs.flatMap encodeWord)
  | .message entries => encodeDelimited (encodeEntries entries)

/-- The bytes of the entries of a record. -/
def encodeEntries : List (Nat × Value) → Bytes
  | [] => []
  | (number, v) :: rest => encodeKey number v.wireType ++ v.encode ++ encodeEntries rest

end

/-- The bytes of a record. -/
def Record.encode (r : Record) : Bytes := encodeEntries r

theorem encodeEntries_append (xs ys : List (Nat × Value)) :
    encodeEntries (xs ++ ys) = encodeEntries xs ++ encodeEntries ys := by
  induction xs with
  | nil => simp [encodeEntries]
  | cons x xs ih => obtain ⟨n, v⟩ := x; simp [encodeEntries, ih]

end ProtoForge.Wire
