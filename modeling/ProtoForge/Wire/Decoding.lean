import ProtoForge.Wire.Message

/-!
# Decoding

A message is read field by field until its bytes are used up. A known field
is merged into the record, an unknown one is skipped. A nested message reads
on in the bytes of the outer one and must end exactly where its length says.
Messages and groups nest at most one hundred deep.
-/
namespace ProtoForge.Wire

/-- Why bytes are no message. -/
inductive DecodeCause where
  | invalidVarint
  | invalidKey (key : Nat)
  | invalidWireTypeValue (code : Nat)
  | invalidTag
  | wrongWireType (actual expected : WireType)
  | underflow
  | lengthExceeded
  | recursionLimit
  | unexpectedEndGroup
  | notText
  deriving DecidableEq, Repr

/-- The wording of a cause. -/
def DecodeCause.message : DecodeCause → String
  | invalidVarint => "invalid varint"
  | invalidKey key => s!"invalid key value: {key}"
  | invalidWireTypeValue code => s!"invalid wire type value: {code}"
  | invalidTag => "invalid tag value: 0"
  | wrongWireType actual expected =>
      s!"invalid wire type: {actual.name} (expected {expected.name})"
  | underflow => "buffer underflow"
  | lengthExceeded => "delimited length exceeded"
  | recursionLimit => "recursion limit reached"
  | unexpectedEndGroup => "unexpected end group tag"
  | notText => "invalid string value: data is not UTF-8 encoded"

/-- A cause with the fields in which it arose, innermost first. -/
structure DecodeError where
  cause : DecodeCause
  trail : List (MessageType × String) := []
  deriving DecidableEq, Repr

/-- The wording of a decoding error. -/
def DecodeError.message (e : DecodeError) : String :=
  let steps := e.trail.map fun s => s.1.name ++ "." ++ s.2 ++ ": "
  "failed to decode Protobuf message: " ++ String.join steps ++ e.cause.message

/-- What is left after reading at least one byte. -/
abbrev Shorter (b : Bytes) := { r : Bytes // r.length < b.length }

/-- What is left after reading. -/
abbrev NotLonger (b : Bytes) := { r : Bytes // r.length ≤ b.length }

/-- The varint at the start of the bytes. -/
def readVarint (b : Bytes) : Except DecodeError (Nat × Shorter b) :=
  match h : decodeVarint b with
  | some (n, r) => .ok (n, ⟨r, decodeVarint_length h⟩)
  | none => .error ⟨.invalidVarint, []⟩

/-- The field number and layout at the start of the bytes. -/
def readKey (b : Bytes) : Except DecodeError ((Nat × WireType) × Shorter b) := do
  let (key, rest) ← readVarint b
  if Width.size 32 ≤ key then throw ⟨.invalidKey key, []⟩
  match WireType.ofCode? (key % 8) with
  | none => throw ⟨.invalidWireTypeValue (key % 8), []⟩
  | some w => if key / 8 = 0 then throw ⟨.invalidTag, []⟩ else pure ((key / 8, w), rest)

/-- The next `count` bytes. -/
def readBytes (count : Nat) (b : Bytes) : Except DecodeError (Bytes × NotLonger b) :=
  if count ≤ b.length then .ok (b.take count, ⟨b.drop count, by simp⟩)
  else .error ⟨.underflow, []⟩

/-- A byte string after its length. -/
def readDelimited (b : Bytes) : Except DecodeError (Bytes × Shorter b) := do
  let (count, rest) ← readVarint b
  let (content, after) ← readBytes count rest.1
  pure (content, ⟨after.1, Nat.lt_of_le_of_lt after.2 rest.2⟩)

/-- A step that reads at least one byte and changes a state. -/
abbrev ReadStep (σ : Type) := σ → (b : Bytes) → Except DecodeError (σ × Shorter b)

/-- Repeats a step until at most `limit` bytes are left. -/
def readUntil {σ : Type} (step : ReadStep σ) (limit : Nat) (s : σ) (b : Bytes) :
    Except DecodeError (σ × NotLonger b) :=
  if b.length ≤ limit then .ok (s, ⟨b, Nat.le_refl _⟩)
  else
    match step s b with
    | .error e => .error e
    | .ok (s', ⟨r, h⟩) =>
        match readUntil step limit s' r with
        | .error e => .error e
        | .ok (t, ⟨q, k⟩) => .ok (t, ⟨q, Nat.le_trans k (Nat.le_of_lt h)⟩)
termination_by b.length

/-- Repeats a step over a stretch that starts with its length and must end with it. -/
def readStretch {σ : Type} (step : ReadStep σ) (s : σ) (b : Bytes) :
    Except DecodeError (σ × Shorter b) := do
  let (count, rest) ← readVarint b
  if rest.1.length < count then throw ⟨.underflow, []⟩
  let limit := rest.1.length - count
  let (t, after) ← readUntil step limit s rest.1
  if after.1.length ≠ limit then throw ⟨.lengthExceeded, []⟩
  pure (t, ⟨after.1, Nat.lt_of_le_of_lt after.2 rest.2⟩)

/-- Refuses a layout other than the expected one. -/
def expectWireType (actual expected : WireType) : Except DecodeError Unit :=
  if actual = expected then .ok () else .error ⟨.wrongWireType actual expected, []⟩

/-- The number spelled by bytes, least significant first. -/
def littleEndian (b : Bytes) : Nat := b.foldr (fun x n => x.toNat + 256 * n) 0

/-- A single value of a kind other than a message. -/
def readScalar (k : Kind) (b : Bytes) : Except DecodeError (Value × Shorter b) :=
  match k with
  | .text => do
      let (content, rest) ← readDelimited b
      match Bytes.toText? content with
      | some s => pure (.text s, rest)
      | none => throw ⟨.notText, []⟩
  | .bytes => do
      let (content, rest) ← readDelimited b
      pure (.bytes content, rest)
  | .double =>
      if h : 8 ≤ b.length then
        .ok (.fixed64 (UInt64.ofNat (littleEndian (b.take 8))),
          ⟨b.drop 8, by rw [List.length_drop]; omega⟩)
      else .error ⟨.underflow, []⟩
  | k => do
      let (n, rest) ← readVarint b
      pure (.varint (k.normalize n), rest)

/-- Skips a value of a layout; `depth` groups may still open. -/
def skipValue : (depth : Nat) → (number : Nat) → WireType → (b : Bytes) →
    Except DecodeError (NotLonger b)
  | 0, _, _, _ => .error ⟨.recursionLimit, []⟩
  | depth + 1, number, w, b =>
      match w with
      | .varint => do
          let (_, rest) ← readVarint b
          pure ⟨rest.1, Nat.le_of_lt rest.2⟩
      | .thirtyTwoBit => do
          let (_, rest) ← readBytes 4 b
          pure rest
      | .sixtyFourBit => do
          let (_, rest) ← readBytes 8 b
          pure rest
      | .lengthDelimited => do
          let (_, rest) ← readDelimited b
          pure ⟨rest.1, Nat.le_of_lt rest.2⟩
      | .endGroup => throw ⟨.unexpectedEndGroup, []⟩
      | .startGroup => skipGroup number (skipValue depth) b
where
  /-- Skips the fields of a group up to its end. -/
  skipGroup (number : Nat)
      (skip : (number : Nat) → WireType → (b : Bytes) → Except DecodeError (NotLonger b))
      (b : Bytes) : Except DecodeError (NotLonger b) :=
    match readKey b with
    | .error e => .error e
    | .ok ((inner, .endGroup), rest) =>
        if inner = number then .ok ⟨rest.1, Nat.le_of_lt rest.2⟩
        else .error ⟨.unexpectedEndGroup, []⟩
    | .ok ((inner, w), rest) =>
        match skip inner w rest.1 with
        | .error e => .error e
        | .ok after =>
            have : after.1.length < b.length := Nat.lt_of_le_of_lt after.2 rest.2
            match skipGroup number skip after.1 with
            | .error e => .error e
            | .ok final => .ok ⟨final.1, Nat.le_trans final.2 (Nat.le_of_lt this)⟩
  termination_by b.length

/-- Adds a value that was read to the values of its field. -/
def Record.store (r : Record) (f : Field) (v : Value) : Record :=
  match f.label with
  | .repeated => r.push f.number v
  | _ => r.set f.number v

/-- The words of a packed field. -/
def Record.packedWords (r : Record) (number : Nat) : List UInt64 :=
  match r.get? number with
  | some (.packed vs) => vs
  | _ => []

/-- Adds a word to a field of many numbers. -/
def Record.storeWord (r : Record) (f : Field) (v : UInt64) : Record :=
  match f.label with
  | .packed => r.set f.number (.packed (r.packedWords f.number ++ [v]))
  | _ => r.store f (.varint v)

/-- Reads one word into a field of many numbers. -/
def readWord (f : Field) : ReadStep Record := fun r b => do
  let (n, rest) ← readVarint b
  pure (r.storeWord f (f.kind.normalize n), rest)

/-- Reads a message of a type, after its length, into a record. -/
abbrev MessageReader := MessageType → ReadStep Record

/-- Reads the value of a known field. -/
def readField (nested : MessageReader) (f : Field) (w : WireType) : ReadStep Record := fun r b =>
  match f.kind, f.label with
  | .message t, label => do
      expectWireType w .lengthDelimited
      let start :=
        if label = .repeated then t.initial else (r.message? f.number).getD t.initial
      let (m, rest) ← nested t start b
      pure (r.store f (.message m), rest)
  | .text, _ | .bytes, _ | .double, _ | _, .optional | _, .required => do
      expectWireType w f.kind.wireType
      let (v, rest) ← readScalar f.kind b
      pure (r.store f v, rest)
  | _, _ =>
      if w = .lengthDelimited then readStretch (readWord f) r b
      else do
        expectWireType w .varint
        readWord f r b

/-- Adds the field in which an error arose. -/
def DecodeError.within (e : DecodeError) (t : MessageType) (f : Field) : DecodeError :=
  { e with trail := e.trail ++ [(t, f.name)] }

/-- Reads one field of a message, or skips it if its number is unknown. -/
def readEntry (nested : MessageReader) (depth : Nat) (t : MessageType) : ReadStep Record :=
  fun r b => do
    let ((number, w), rest) ← readKey b
    match t.field? number with
    | some f =>
        match readField nested f w r rest.1 with
        | .error e => throw (e.within t f)
        | .ok (r', after) => pure (r', ⟨after.1, Nat.lt_trans after.2 rest.2⟩)
    | none =>
        let after ← skipValue depth number w rest.1
        pure (r, ⟨after.1, Nat.lt_of_le_of_lt after.2 rest.2⟩)

/-- Reads a nested message; `depth` further ones may open inside the outer one. -/
def readMessage : (depth : Nat) → MessageReader
  | 0, _ => fun _ _ => .error ⟨.recursionLimit, []⟩
  | depth + 1, t => readStretch (readEntry (readMessage depth) depth t)

/-- How deep messages and groups may nest. -/
def maxDepth : Nat := 100

/-- The record of a message of a type. -/
def decode (t : MessageType) (b : Bytes) : Except DecodeError Record := do
  let (r, _) ← readUntil (readEntry (readMessage maxDepth) maxDepth t) 0 t.initial b
  pure r

end ProtoForge.Wire
