import ProtoForge.CommandLine.CodegenTool
import ProtoForge.CommandLine.SettingsTool
import ProtoForge.CommandLine.Snapshot

/-!
# The command line

A machine comes as a document on standard input; the console and the files
after the run go to standard output. The first argument `config` asks for the
settings tool, all others go to the code generation tool.
-/
namespace ProtoForge.CommandLine

open Document Files

/-- Runs the tool that arguments ask for. -/
def runTool (env : Settings.Environment) (arguments : List String) : StateM Disk Console :=
  match arguments with
  | "config" :: rest => runSettingsTool env rest
  | _ => runCodegenTool env arguments

/-- Runs a tool on the machine of a document; `none` if the text is no document. -/
def runOn (text : String) (arguments : List String) : Option (Console × Value) := do
  let v ← Json.parse? text
  let s := Snapshot.ofValue v
  let (c, d) := (runTool s.environment arguments).run s.disk
  pure (c, c.toDocument d)

end ProtoForge.CommandLine

open ProtoForge CommandLine in
/-- Reads the machine, runs the tool, and prints what is left. -/
def main (arguments : List String) : IO UInt32 := do
  let text ← (← IO.getStdin).readToEnd
  match runOn text arguments with
  | none =>
      IO.eprintln "standard input is no JSON document"
      pure 2
  | some (c, v) =>
      IO.println (Document.Json.renderPretty v)
      pure (UInt32.ofNat c.code)
