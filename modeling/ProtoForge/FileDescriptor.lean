import ProtoForge.Wire.Decoding

/-!
# File descriptors

What a compiler says about one source file: its name, the files it imports,
and its declarations, which stay as they were read.
-/
namespace ProtoForge

/-- The description of one source file. -/
structure FileDescriptor where
  record : Wire.Record
  deriving Inhabited

namespace FileDescriptor

/-- The name of the file; a missing name is empty. -/
def name (d : FileDescriptor) : String := (d.record.text? 1).getD ""

/-- The names of the imported files, in order. -/
def dependencies (d : FileDescriptor) : List String := d.record.texts 3

/-- The bytes of a descriptor. -/
def encode (d : FileDescriptor) : Bytes := d.record.encode

/-- The descriptor with nothing but a name and imports. -/
def ofImports (name : String) (imports : List String) : FileDescriptor :=
  ⟨(1, .text name) :: imports.map fun i => (3, .text i)⟩

@[simp] theorem name_ofImports (n : String) (imports : List String) :
    (ofImports n imports).name = n := by
  simp [ofImports, name, Wire.Record.text?, Wire.Record.get?, Wire.Record.all]

@[simp] theorem dependencies_ofImports (n : String) (imports : List String) :
    (ofImports n imports).dependencies = imports := by
  simp [ofImports, dependencies, Wire.Record.texts, Wire.Record.all, Function.comp_def]

end FileDescriptor

/-- Several descriptors as one message. -/
def encodeDescriptorSet (files : List FileDescriptor) : Bytes :=
  Wire.Record.encode (files.map fun d => (1, .message d.record))

/-- The descriptors of one message. -/
def decodeDescriptorSet (b : Bytes) : Except Wire.DecodeError (List FileDescriptor) := do
  let r ← Wire.decode .fileDescriptorSet b
  pure ((r.messages 1).map FileDescriptor.mk)

end ProtoForge
