import ProtoForge.FileDescriptor
import ProtoForge.Plugin.Response

/-!
# Generator requests

What a code generator is given: the names of the files to generate code for
and the descriptors of all files that those need.
-/
namespace ProtoForge.Plugin

/-- The version of a compiler. -/
structure Version where
  major : Option Int32 := none
  minor : Option Int32 := none
  patch : Option Int32 := none
  suffix : Option String := none
  deriving DecidableEq, Repr

/-- The question to a generator. -/
structure Request where
  filesToGenerate : List String := []
  parameter : Option String := none
  compilerVersion : Option Version := none
  files : List FileDescriptor := []
  sourceFiles : List FileDescriptor := []

/-- The value of an optional signed field. -/
def signedEntry (number : Nat) (n : Option Int32) : Wire.Record :=
  n.toList.map fun v => (number, .varint v.toInt64.toUInt64)

namespace Version

/-- The fields of a version. -/
def toRecord (v : Version) : Wire.Record :=
  signedEntry 1 v.major ++ signedEntry 2 v.minor ++ signedEntry 3 v.patch ++
    textEntry 4 v.suffix

/-- The version with the given fields. -/
def ofRecord (r : Wire.Record) : Version :=
  let signed number := (r.varint? number).map fun n => n.toInt64.toInt32
  ⟨signed 1, signed 2, signed 3, r.text? 4⟩

end Version

namespace Request

/-- The fields of a request. -/
def toRecord (r : Request) : Wire.Record :=
  r.filesToGenerate.map (fun s => (1, .text s)) ++ textEntry 2 r.parameter ++
    r.compilerVersion.toList.map (fun v => (3, .message v.toRecord)) ++
    r.files.map (fun d => (15, .message d.record)) ++
    r.sourceFiles.map fun d => (17, .message d.record)

/-- The request with the given fields. -/
def ofRecord (r : Wire.Record) : Request where
  filesToGenerate := r.texts 1
  parameter := r.text? 2
  compilerVersion := (r.message? 3).map Version.ofRecord
  files := (r.messages 15).map FileDescriptor.mk
  sourceFiles := (r.messages 17).map FileDescriptor.mk

/-- The bytes of a request. -/
def encode (r : Request) : Bytes := r.toRecord.encode

/-- The request that the bytes hold. -/
def decode (b : Bytes) : Except Wire.DecodeError Request := do
  let r ← Wire.decode .generatorRequest b
  pure (ofRecord r)

end Request

end ProtoForge.Plugin
