import ProtoForge.Plugin.Request
import ProtoForge.Proofs.Wire.Reading
import Mathlib.Algebra.Group.Int.Defs

/-!
# The bytes of requests and responses

Each field is written as a tag and a value, in ascending order of the tags: texts
and messages after their lengths, numbers as varints. A signed number is written
with all its 64 bits.
-/
namespace ProtoForge.Plugin

open Wire

/-- Byte strings, each after a tag and its length. -/
def delimited (tag : Bytes) (contents : List Bytes) : Bytes :=
  contents.flatMap fun content => tag ++ encodeVarint content.length ++ content

/-- Varints, each after a tag. -/
def varints (tag : Bytes) (numbers : List ℕ) : Bytes :=
  numbers.flatMap fun n => tag ++ encodeVarint n

theorem encodeEntries_map {α : Type} (n : ℕ) (g : α → Value) (xs : List α) :
    encodeEntries (xs.map fun x => (n, g x)) =
      xs.flatMap fun x => encodeKey n (g x).wireType ++ (g x).encode := by
  induction xs with
  | nil => rfl
  | cons x xs ih => rw [List.map_cons, encodeEntries, ih, List.flatMap_cons]

theorem encode_texts (n : ℕ) (xs : List String) :
    encodeEntries (xs.map fun s => (n, .text s)) =
      delimited (encodeKey n .lengthDelimited) (xs.map Bytes.ofText) := by
  rw [encodeEntries_map, delimited, List.flatMap_map]
  simp [Value.wireType, Value.encode, encodeDelimited]

theorem encode_messages {α : Type} (n : ℕ) (g : α → Record) (xs : List α) :
    encodeEntries (xs.map fun x => (n, .message (g x))) =
      delimited (encodeKey n .lengthDelimited) (xs.map fun x => (g x).encode) := by
  rw [encodeEntries_map, delimited, List.flatMap_map]
  simp [Value.wireType, Value.encode, encodeDelimited, Record.encode]

theorem encode_varints {α : Type} (n : ℕ) (g : α → UInt64) (xs : List α) :
    encodeEntries (xs.map fun x => (n, .varint (g x))) =
      varints (encodeKey n .varint) (xs.map fun x => (g x).toNat) := by
  rw [encodeEntries_map, varints, List.flatMap_map]
  simp [Value.wireType, Value.encode, encodeWord]

/-- A signed number is written as its remainder modulo the sixty-fourth power of two. -/
theorem toNat_signed (n : Int32) : n.toInt64.toUInt64.toNat = (n.toInt % 2 ^ 64).toNat :=
  BitVec.toNat_ofInt n.toInt

theorem encodeKey_of_lt (n : ℕ) (w : WireType) (h : 8 * n + w.code < 128) :
    encodeKey n w = [UInt8.ofNat (8 * n + w.code)] := encodeVarint_of_lt h

theorem ResponseFile.encode_eq (f : ResponseFile) :
    f.toRecord.encode = delimited [0x0a] (f.name.toList.map Bytes.ofText) ++
      delimited [0x12] (f.insertionPoint.toList.map Bytes.ofText) ++
      delimited [0x7a] (f.content.toList.map Bytes.ofText) := by
  simp only [Record.encode, toRecord, encodeEntries_append, textEntry, encode_texts]
  rw [encodeKey_of_lt 1 _ (by decide), encodeKey_of_lt 2 _ (by decide),
    encodeKey_of_lt 15 _ (by decide)]
  rfl

theorem Response.encode_eq (r : Response) :
    r.encode = delimited [0x0a] (r.error.toList.map Bytes.ofText) ++
      varints [0x10] (r.supportedFeatures.toList.map (·.toNat)) ++
      delimited [0x7a] (r.files.map (·.toRecord.encode)) := by
  simp only [encode, Record.encode, toRecord, encodeEntries_append, textEntry, encode_texts,
    encode_varints, encode_messages]
  rw [encodeKey_of_lt 1 _ (by decide), encodeKey_of_lt 2 _ (by decide),
    encodeKey_of_lt 15 _ (by decide)]
  rfl

theorem Version.encode_eq (v : Version) :
    v.toRecord.encode = varints [0x08] (v.major.toList.map fun n => (n.toInt % 2 ^ 64).toNat) ++
      varints [0x10] (v.minor.toList.map fun n => (n.toInt % 2 ^ 64).toNat) ++
      varints [0x18] (v.patch.toList.map fun n => (n.toInt % 2 ^ 64).toNat) ++
      delimited [0x22] (v.suffix.toList.map Bytes.ofText) := by
  simp only [Record.encode, toRecord, encodeEntries_append, textEntry, signedEntry, encode_texts,
    encode_varints, toNat_signed]
  rw [encodeKey_of_lt 1 _ (by decide), encodeKey_of_lt 2 _ (by decide),
    encodeKey_of_lt 3 _ (by decide), encodeKey_of_lt 4 _ (by decide)]
  rfl

theorem Request.encode_eq (r : Request) :
    r.encode = delimited [0x0a] (r.filesToGenerate.map Bytes.ofText) ++
      delimited [0x12] (r.parameter.toList.map Bytes.ofText) ++
      delimited [0x1a] (r.compilerVersion.toList.map (·.toRecord.encode)) ++
      delimited [0x7a] (r.files.map (·.encode)) ++
      delimited [0x8a, 0x01] (r.sourceFiles.map (·.encode)) := by
  have hlast : encodeKey 17 .lengthDelimited = [0x8a, 0x01] := by
    rw [encodeKey, encodeVarint_of_le (by decide), encodeVarint_of_lt (by decide)]
    rfl
  simp only [encode, Record.encode, toRecord, encodeEntries_append, textEntry, encode_texts,
    encode_messages, hlast]
  rw [encodeKey_of_lt 1 _ (by decide), encodeKey_of_lt 2 _ (by decide),
    encodeKey_of_lt 3 _ (by decide), encodeKey_of_lt 15 _ (by decide)]
  rfl

end ProtoForge.Plugin
