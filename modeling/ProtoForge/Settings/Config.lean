import ProtoForge.Failure
import ProtoForge.OrderedMap

/-!
# Configuration

The settings of a run, their defaults, and what is required of them.
-/
namespace ProtoForge.Settings

/-- The most pages of 64 KiB that a linear memory can have. -/
def maxPages : Nat := 65536

/-- Where a run reads and writes. -/
structure Paths where
  sourceDir : Path := ⟨"src/main/proto"⟩
  workDir : Path := ⟨"target/protoc-sandbox"⟩
  outDir : Path := ⟨"target/generated-sources/protoc"⟩
  deriving DecidableEq, Repr

/-- Which packages are scanned, and which of their files are taken. -/
structure ScanConfig where
  dependencies : Scan.Policy := .nothing
  imports : Scan.Policy := .only ["com.google.protobuf:protobuf-java"]
  stripOptions : List String := ["java_generic_services"]
  includes : OrderedMap (List String) := []
  excludes : OrderedMap (List String) := []
  deriving DecidableEq, Repr

/-- How guests are run. -/
structure SandboxConfig where
  compilerImage : Path := ⟨"protoc-wrapper.wasm"⟩
  programName : String := "protoc-wrapper"
  descriptorCommand : String := "descriptors"
  minMemoryPages : UInt32 := 10
  maxMemoryPages : UInt32 := 65536
  fuel : Option UInt64 := none
  maxOutputBytes : UInt64 := 67108864
  deriving DecidableEq, Repr

/-- A generator that runs as a guest; without an image of its own it uses the compiler's. -/
structure GuestConfig where
  image : Option Path := none
  args : List String := []
  deriving DecidableEq, Repr

/-- The guest generator that passes its id on. -/
def GuestConfig.ofId (id : String) : GuestConfig := ⟨none, [id]⟩

/-- Which generators run. -/
structure GeneratorsConfig where
  enabled : List String := ["java", "grpc-java"]
  guests : OrderedMap GuestConfig :=
    OrderedMap.ofList [("java", .ofId "java"), ("grpc-java", .ofId "grpc-java")]
  deriving DecidableEq, Repr

/-- Whether and where the descriptor set is written. -/
structure DescriptorSetConfig where
  generate : Bool := false
  outputDir : Option Path := none
  name : String := "descriptor_set.dsc"
  deriving DecidableEq, Repr

/-- All settings of a run. -/
structure Config where
  test : Bool := false
  skip : Bool := false
  paths : Paths := {}
  scan : ScanConfig := {}
  sandbox : SandboxConfig := {}
  generators : GeneratorsConfig := {}
  descriptorSet : DescriptorSetConfig := {}
  deriving DecidableEq, Repr

/-- The include globs of a package. -/
def ScanConfig.includesFor (c : ScanConfig) (packageId : String) : List String :=
  (c.includes.get? packageId).getD []

/-- The exclude globs of a package. -/
def ScanConfig.excludesFor (c : ScanConfig) (packageId : String) : List String :=
  (c.excludes.get? packageId).getD []

/-- The first key of the filters that is no package id. -/
def ScanConfig.badFilterKey? (c : ScanConfig) : Option String :=
  (c.includes.keys ++ c.excludes.keys).find? fun k => !k.contains ':'

namespace Config

/-- Refuses settings that no run can use. -/
def validate (c : Config) : Except ConfigFault Unit := do
  let s := c.sandbox
  if s.maxMemoryPages < s.minMemoryPages then
    throw (.minimumAboveMaximum s.minMemoryPages.toNat s.maxMemoryPages.toNat)
  if maxPages < s.maxMemoryPages.toNat then
    throw (.maximumAboveLimit s.maxMemoryPages.toNat maxPages)
  if s.programName = "" || s.descriptorCommand = "" then throw .emptyProgram
  if c.descriptorSet.generate && Text.trim c.descriptorSet.name = "" then
    throw .emptyDescriptorSetName
  match c.scan.badFilterKey? with
  | some key => throw (.filterKey key)
  | none => pure ()

/-- The directory of the project's own schema files, seen from a working directory. -/
def sourceDir (c : Config) (d : Files.Disk) : Path := d.absolutize c.paths.sourceDir

/-- The directory for extracted files. -/
def workDir (c : Config) (d : Files.Disk) : Path := d.absolutize c.paths.workDir

/-- The directory for generated files. -/
def outDir (c : Config) (d : Files.Disk) : Path := d.absolutize c.paths.outDir

/-- Where the descriptor set goes. -/
def descriptorSetPath (c : Config) (d : Files.Disk) : Path :=
  let dir :=
    match c.descriptorSet.outputDir with
    | some dir => (c.workDir d).join dir
    | none => c.outDir d
  dir.join ⟨c.descriptorSet.name⟩

end Config

end ProtoForge.Settings
