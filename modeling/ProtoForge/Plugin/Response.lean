import ProtoForge.Wire.Decoding

/-!
# Generator responses

What a code generator answers: files with their contents, or the text of a
failure. A file without a name continues the one before it.
-/
namespace ProtoForge.Plugin

/-- The value of an optional text field. -/
def textEntry (number : Nat) (s : Option String) : Wire.Record :=
  s.toList.map fun t => (number, .text t)

/-- One entry of a response. -/
structure ResponseFile where
  name : Option String := none
  insertionPoint : Option String := none
  content : Option String := none
  deriving DecidableEq, Repr

/-- The answer of a generator. -/
structure Response where
  error : Option String := none
  supportedFeatures : Option UInt64 := none
  files : List ResponseFile := []
  deriving DecidableEq, Repr

namespace ResponseFile

/-- The fields of an entry. -/
def toRecord (f : ResponseFile) : Wire.Record :=
  textEntry 1 f.name ++ textEntry 2 f.insertionPoint ++ textEntry 15 f.content

/-- The entry with the given fields. -/
def ofRecord (r : Wire.Record) : ResponseFile := ⟨r.text? 1, r.text? 2, r.text? 15⟩

end ResponseFile

namespace Response

/-- The answer that reports a failure. -/
def failure (message : String) : Response where
  error := some message

/-- The fields of a response. -/
def toRecord (r : Response) : Wire.Record :=
  textEntry 1 r.error ++ r.supportedFeatures.toList.map (fun n => (2, .varint n)) ++
    r.files.map fun f => (15, .message f.toRecord)

/-- The response with the given fields. -/
def ofRecord (r : Wire.Record) : Response :=
  ⟨r.text? 1, r.varint? 2, (r.messages 15).map ResponseFile.ofRecord⟩

/-- The bytes of a response. -/
def encode (r : Response) : Bytes := r.toRecord.encode

/-- The response that the bytes hold. -/
def decode (b : Bytes) : Except Wire.DecodeError Response := do
  let r ← Wire.decode .generatorResponse b
  pure (ofRecord r)

/-- Two answers read one after the other: the later one wins, files add up. -/
def merge (a b : Response) : Response :=
  ⟨b.error <|> a.error, b.supportedFeatures <|> a.supportedFeatures, a.files ++ b.files⟩

end Response

end ProtoForge.Plugin
