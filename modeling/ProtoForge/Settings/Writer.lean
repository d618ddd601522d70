import ProtoForge.Document.Toml.Printer
import ProtoForge.Settings.Config

/-!
# Writing settings

Settings as a document, and as a file.
-/
namespace ProtoForge.Settings

open Document

/-- A path that may be missing. -/
def optPath (p : Option Path) : Value := .optText (p.map (·.text))

/-- The globs of packages. -/
def globsValue (m : OrderedMap (List String)) : Value := .table (m.map fun e => (e.1, .texts e.2))

/-- The directories. -/
def Paths.toDocument (c : Paths) : Value :=
  .table [("source_dir", .text c.sourceDir.text), ("work_dir", .text c.workDir.text),
    ("out_dir", .text c.outDir.text)]

/-- The scans. -/
def ScanConfig.toDocument (c : ScanConfig) : Value :=
  .table [("dependencies", .text c.dependencies.text), ("imports", .text c.imports.text),
    ("strip_options", .texts c.stripOptions), ("include", globsValue c.includes),
    ("exclude", globsValue c.excludes)]

/-- The sandbox. -/
def SandboxConfig.toDocument (c : SandboxConfig) : Value :=
  .table [("compiler_image", .text c.compilerImage.text), ("program_name", .text c.programName),
    ("descriptor_command", .text c.descriptorCommand),
    ("min_memory_pages", .nat c.minMemoryPages.toNat),
    ("max_memory_pages", .nat c.maxMemoryPages.toNat),
    ("fuel", (c.fuel.map fun n => Value.nat n.toNat).getD .null),
    ("max_output_bytes", .nat c.maxOutputBytes.toNat)]

/-- A guest generator. -/
def GuestConfig.toDocument (c : GuestConfig) : Value :=
  .table [("image", optPath c.image), ("args", .texts c.args)]

/-- The generators. -/
def GeneratorsConfig.toDocument (c : GeneratorsConfig) : Value :=
  .table [("enabled", .texts c.enabled),
    ("guests", .table (c.guests.map fun e => (e.1, e.2.toDocument)))]

/-- The descriptor set. -/
def DescriptorSetConfig.toDocument (c : DescriptorSetConfig) : Value :=
  .table [("generate", .bool c.generate), ("output_dir", optPath c.outputDir),
    ("name", .text c.name)]

namespace Config

/-- All settings. -/
def toDocument (c : Config) : Value :=
  .table [("test", .bool c.test), ("skip", .bool c.skip), ("paths", c.paths.toDocument),
    ("scan", c.scan.toDocument), ("sandbox", c.sandbox.toDocument),
    ("generators", c.generators.toDocument), ("descriptor_set", c.descriptorSet.toDocument)]

/-- All settings as a TOML document. -/
def toToml (c : Config) : Except Failure String :=
  (Toml.print c.toDocument).mapError fun fault => .io fault.message

/-- Writes all settings to a file. -/
def save (c : Config) (p : Path) : RunAction Unit := do
  let text ← ExceptT.mk (pure c.toToml)
  (Files.writeFile p (Bytes.ofText text)).orFail fun fault => .io fault.message

end Config

end ProtoForge.Settings
