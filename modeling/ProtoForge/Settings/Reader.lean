import ProtoForge.Document.Reading
import ProtoForge.Settings.Config

/-!
# Reading settings

The settings that a document holds; what it does not set keeps its default.
-/
namespace ProtoForge.Settings

open Document

/-- A scan policy. -/
def readPolicy (d : Dialect) (t : Tree) : Reading Scan.Policy := do
  let value ← d.text "a string" t
  (Scan.Policy.parse value).mapError fun fault => .refused (policyMessage value fault)

/-- A path. -/
def readPath (d : Dialect) (t : Tree) : Reading Path := do pure ⟨← d.path t⟩

/-- A text. -/
def readText (d : Dialect) (t : Tree) : Reading String := d.text "a string" t

/-- A list of texts. -/
def readTexts (d : Dialect) (t : Tree) : Reading (List String) := d.list (readText d) t

/-- A number of 32 bits. -/
def readUInt32 (d : Dialect) (t : Tree) : Reading UInt32 := do
  pure (UInt32.ofNat (← d.whole "u32" (Width.size 32) t))

/-- A number of 64 bits, under the name that faults give it. -/
def readUInt64 (d : Dialect) (type : String) (t : Tree) : Reading UInt64 := do
  pure (UInt64.ofNat (← d.whole type (Width.size 64) t))

/-- The fields of the directories. -/
def pathsShape (d : Dialect) : RecordShape Paths where
  name := "PathsConfig"
  slots := [
    { name := "source_dir", read := fun t c => do pure { c with sourceDir := ← readPath d t } },
    { name := "work_dir", read := fun t c => do pure { c with workDir := ← readPath d t } },
    { name := "out_dir", read := fun t c => do pure { c with outDir := ← readPath d t } }]

/-- The fields of the scans. -/
def scanShape (d : Dialect) : RecordShape ScanConfig where
  name := "ScanConfig"
  slots := [
    { name := "dependencies",
      read := fun t c => do pure { c with dependencies := ← readPolicy d t } },
    { name := "imports", read := fun t c => do pure { c with imports := ← readPolicy d t } },
    { name := "strip_options",
      read := fun t c => do pure { c with stripOptions := ← readTexts d t } },
    { name := "include",
      read := fun t c => do pure { c with includes := ← d.map (readTexts d) t } },
    { name := "exclude",
      read := fun t c => do pure { c with excludes := ← d.map (readTexts d) t } }]

/-- The fields of the sandbox. -/
def sandboxShape (d : Dialect) : RecordShape SandboxConfig where
  name := "SandboxConfig"
  slots := [
    { name := "compiler_image",
      read := fun t c => do pure { c with compilerImage := ← readPath d t } },
    { name := "program_name",
      read := fun t c => do pure { c with programName := ← readText d t } },
    { name := "descriptor_command",
      read := fun t c => do pure { c with descriptorCommand := ← readText d t } },
    { name := "min_memory_pages",
      read := fun t c => do pure { c with minMemoryPages := ← readUInt32 d t } },
    { name := "max_memory_pages",
      read := fun t c => do pure { c with maxMemoryPages := ← readUInt32 d t } },
    { name := "fuel",
      read := fun t c => do pure { c with fuel := ← optional (readUInt64 d "u64") t } },
    { name := "max_output_bytes",
      read := fun t c => do pure { c with maxOutputBytes := ← readUInt64 d "usize" t } }]

/-- The fields of a guest generator. -/
def guestShape (d : Dialect) : RecordShape GuestConfig where
  name := "GuestGeneratorConfig"
  slots := [
    { name := "image",
      read := fun t c => do pure { c with image := ← optional (readPath d) t } },
    { name := "args", read := fun t c => do pure { c with args := ← readTexts d t } }]

/-- The fields of the generators. -/
def generatorsShape (d : Dialect) : RecordShape GeneratorsConfig where
  name := "GeneratorsConfig"
  slots := [
    { name := "enabled", read := fun t c => do pure { c with enabled := ← readTexts d t } },
    { name := "guests",
      read := fun t c => do
        pure { c with guests := ← d.map ((guestShape d).read d {}) t } }]

/-- The fields of the descriptor set. -/
def descriptorSetShape (d : Dialect) : RecordShape DescriptorSetConfig where
  name := "DescriptorSetConfig"
  slots := [
    { name := "generate", read := fun t c => do pure { c with generate := ← d.truth t } },
    { name := "output_dir",
      read := fun t c => do pure { c with outputDir := ← optional (readPath d) t } },
    { name := "name", read := fun t c => do pure { c with name := ← readText d t } }]

/-- The fields of all settings. -/
def configShape (d : Dialect) : RecordShape Config where
  name := "CodegenConfig"
  slots := [
    { name := "test", read := fun t c => do pure { c with test := ← d.truth t } },
    { name := "skip", read := fun t c => do pure { c with skip := ← d.truth t } },
    { name := "paths",
      read := fun t c => do pure { c with paths := ← (pathsShape d).read d {} t } },
    { name := "scan", read := fun t c => do pure { c with scan := ← (scanShape d).read d {} t } },
    { name := "sandbox",
      read := fun t c => do pure { c with sandbox := ← (sandboxShape d).read d {} t } },
    { name := "generators",
      read := fun t c => do pure { c with generators := ← (generatorsShape d).read d {} t } },
    { name := "descriptor_set",
      read := fun t c => do
        pure { c with descriptorSet := ← (descriptorSetShape d).read d {} t } }]

/-- The settings of a document. -/
def Config.read (d : Dialect) (t : Tree) : Reading Config := (configShape d).read d {} t

/-- The settings of a value that is taken for what it is. -/
def Config.ofValue (v : Value) : Reading Config :=
  Config.read .strict (Tree.ofValue Scalar.int none v)

end ProtoForge.Settings
