import ProtoForge.CommandLine.Arguments
import ProtoForge.Document.Json
import ProtoForge.Settings.Layers
import ProtoForge.Settings.Writer
import ProtoForge.Text.Lines

/-!
# The settings tool

A program that shows, creates and checks settings.
-/
namespace ProtoForge.CommandLine

open Settings Files

namespace SettingsTool

/-- The commands of the tool. -/
inductive Command where
  | showSettings
  | init
  | validate
  deriving DecidableEq, Repr

/-- The option that asks for a file of settings. -/
def configOption : OptionSpec where
  long := "config"
  short := some 'c'
  valueName := some "CONFIG"

/-- The options of a command. -/
def options : Command → List OptionSpec
  | .showSettings => [configOption, { long := "toml" }, { long := "json" }]
  | .init => [{ long := "output", short := some 'o', valueName := some "OUTPUT" }]
  | .validate => [configOption]

/-- The tool. -/
def program : Program Command where
  about := "View and manage protoc-sandbox configuration"
  commands := [("show", .showSettings), ("init", .init), ("validate", .validate)]
  options := options

/-- The settings that a command asks for. -/
def loadGiven (d : Disk) (env : Environment) (given : Given) : Except LoadFault Config :=
  load d env ((given.value? "config").map Path.mk)

/-- A path in quotes. -/
def quotedPath (p : Path) : String := Text.quotedPath p.text

/-- The lines about the globs of packages. -/
def globLines (label : String) (globs : OrderedMap (List String)) : List String :=
  globs.map fun e => "  " ++ label ++ " " ++ e.1 ++ ": " ++ ", ".intercalate e.2

/-- The line about an enabled generator. -/
def generatorLine (c : GeneratorsConfig) (id : String) : String :=
  match c.guests.get? id with
  | some guest => "  - " ++ id ++ " (guest, args: " ++ " ".intercalate guest.args ++ ")"
  | none => "  - " ++ id ++ " (in-process)"

/-- Settings for people. -/
def summary (d : Disk) (c : Config) : List String :=
  ["📋 Protoc Sandbox Configuration", "", "Paths:",
    "  Source: " ++ quotedPath c.paths.sourceDir,
    "  Work: " ++ quotedPath c.paths.workDir,
    "  Output: " ++ quotedPath c.paths.outDir,
    "  Test scope: " ++ toString c.test,
    "  Skip: " ++ toString c.skip, "", "Scan:",
    "  Dependencies: " ++ c.scan.dependencies.text,
    "  Imports: " ++ c.scan.imports.text,
    "  Strip options: " ++ ", ".intercalate c.scan.stripOptions] ++
  globLines "Include" c.scan.includes ++ globLines "Exclude" c.scan.excludes ++
  ["", "Sandbox:",
    "  Compiler image: " ++ quotedPath c.sandbox.compilerImage,
    s!"  Memory pages: {c.sandbox.minMemoryPages.toNat}..{c.sandbox.maxMemoryPages.toNat}",
    "  Fuel: " ++ (c.sandbox.fuel.map fun n => toString n.toNat).getD "unlimited", "",
    "Generators:"] ++
  c.generators.enabled.map (generatorLine c.generators) ++
  if c.descriptorSet.generate then
    ["", "Descriptor set: " ++ quotedPath (c.descriptorSetPath d)]
  else []

/-- Shows settings. -/
def showGiven (d : Disk) (given : Given) (c : Config) : Console :=
  if given.has "json" then .said (Document.Json.renderPretty c.toDocument ++ "\n")
  else if given.has "toml" then
    match Document.Toml.print c.toDocument with
    | .ok text => .said (text ++ "\n")
    | .error fault => .failed fault.message
  else .said (Text.unlines (summary d c))

/-- Why settings do not pass the check. -/
def checkFailure? (loaded : Except LoadFault Config) : Except Failure Config := do
  let c ← loaded.mapError .settings
  c.validate.mapError .invalidConfig
  pure c

/-- Checks settings. -/
def validateGiven (loaded : Except LoadFault Config) : Console :=
  match checkFailure? loaded with
  | .ok c =>
      .said (Text.unlines ["✅ Configuration is valid",
        "   Source: " ++ quotedPath c.paths.sourceDir,
        "   Generators: " ++ ", ".intercalate c.generators.enabled])
  | .error f => { code := 1, stderr := "❌ Configuration error: " ++ f.message ++ "\n" }

/-- The file in which a command creates settings. -/
def initTarget (given : Given) : String := (given.value? "output").getD "protoc-sandbox.toml"

/-- Creates a file with the default settings. -/
def initGiven (given : Given) : StateM Disk Console := do
  let target := initTarget given
  let text := Document.Toml.render ({} : Config).toDocument
  match ← (Files.writeFile ⟨target⟩ (Bytes.ofText text)).run with
  | .ok () => pure (.said ("✅ Created config file: " ++ target ++ "\n"))
  | .error fault => pure (.failed fault.message)

end SettingsTool

open SettingsTool in
/-- Runs the settings tool. -/
def runSettingsTool (env : Environment) (arguments : List String) : StateM Disk Console := do
  let d ← get
  match program.parse (fun _ _ => .ok ()) arguments with
  | .error fault => pure (.misused fault)
  | .ok (.init, given) => initGiven given
  | .ok (.validate, given) => pure (validateGiven (loadGiven d env given))
  | .ok (.showSettings, given) =>
      match loadGiven d env given with
      | .ok c => pure (showGiven d given c)
      | .error fault => pure (.failed fault.message)

end ProtoForge.CommandLine
