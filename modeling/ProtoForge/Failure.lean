import ProtoForge.Files.Access
import ProtoForge.Guest.Output
import ProtoForge.Path
import ProtoForge.Settings.Fault
import ProtoForge.Wire.Decoding

/-!
# Failures

What ends a run, with its wording and the stage that it belongs to.
-/
namespace ProtoForge

/-- Why a request to generators is not in order. -/
inductive RequestFault where
  | noRoots
  | missingRoot (root : String)
  | repeated (name : String)
  | absent (name dependency : String)
  | misordered (name dependency : String)
  | cyclic
  | tooDeep
  | other (message : String)
  deriving DecidableEq, Repr

/-- The wording of a fault. -/
def RequestFault.message : RequestFault → String
  | noRoots => "no root files to compile"
  | missingRoot root => "compiler returned no descriptor for root '" ++ root ++ "'"
  | repeated name => "descriptor '" ++ name ++ "' appears more than once"
  | absent name dependency =>
      "'" ++ name ++ "' imports '" ++ dependency ++ "' which is not part of the request"
  | misordered name dependency =>
      "'" ++ name ++ "' is ordered before its dependency '" ++ dependency ++ "'"
  | cyclic => "dependency graph contains a cycle"
  | tooDeep => "imports nest too deeply"
  | other message => message

/-- Why a generator's answer is refused. -/
inductive GeneratorFault where
  | reported (message : String)
  | insertionPoint (point : String)
  | strayContinuation
  deriving DecidableEq, Repr

/-- The wording of a fault. -/
def GeneratorFault.message : GeneratorFault → String
  | reported message => message
  | insertionPoint point => "insertion point '" ++ point ++ "' is not supported"
  | strayContinuation => "file continuation without a preceding file"

/-- What ends a run. -/
inductive Failure where
  | settings (fault : Settings.LoadFault)
  | invalidConfig (fault : Settings.ConfigFault)
  | invalidScanPolicy (value : String) (fault : Scan.PolicyFault)
  | unknownGenerator (id : String)
  | sourceDirectory (path : Path) (fault : Files.Fault)
  | extraction (package entry : String) (target : Path) (fault : Files.Fault)
  | archive (path : Path) (fault : Files.Fault)
  | staging (path : Path) (fault : Files.Fault)
  | guestImage (path : Path) (fault : Option Files.Fault)
  | instantiation (program : String)
  | memoryBounds (minimum maximum : Nat)
  | trap (program message : String) (output : Guest.CapturedOutput)
  | nonZeroExit (program : String) (code : Int) (output : Guest.CapturedOutput)
  | decode (program type : String) (error : Wire.DecodeError)
  | unresolvedDependency (name referencedBy : String)
  | dependencyCycle (name : String)
  | invalidRequest (fault : RequestFault)
  | generatorFailed (id : String) (fault : GeneratorFault)
  | invalidOutputPath (generator path : String)
  | outputConflict (path first second : String)
  | write (path : Path) (fault : Files.Fault)
  | io (message : String)
  deriving DecidableEq, Repr

/-- The parts of a run. -/
inductive Stage where
  | configuration
  | collection
  | staging
  | sandbox
  | resolution
  | generation
  | io
  deriving DecidableEq, Repr

/-- The name of a stage. -/
def Stage.text : Stage → String
  | configuration => "configuration"
  | collection => "collection"
  | staging => "staging"
  | sandbox => "sandbox"
  | resolution => "resolution"
  | generation => "generation"
  | io => "io"

namespace Failure

/-- The stage that a failure belongs to. -/
def stage : Failure → Stage
  | settings .. | invalidConfig .. | invalidScanPolicy .. | unknownGenerator ..
  | sourceDirectory .. => .configuration
  | extraction .. | archive .. => .collection
  | staging .. => .staging
  | guestImage .. | instantiation .. | memoryBounds .. | trap .. | nonZeroExit .. | decode .. => .sandbox
  | unresolvedDependency .. | dependencyCycle .. | invalidRequest .. => .resolution
  | generatorFailed .. | invalidOutputPath .. | outputConflict .. | write .. => .generation
  | io .. => .io

/-- The wording of a failure. -/
def message : Failure → String
  | settings fault => "Configuration error: " ++ fault.message
  | invalidConfig fault => "Invalid configuration: " ++ fault.message
  | invalidScanPolicy value fault => Settings.policyMessage value fault
  | unknownGenerator id =>
      "Unknown generator '" ++ id ++ "': not registered and no guest image configured"
  | sourceDirectory path fault =>
      "Source directory " ++ path.text ++ " is not readable: " ++ fault.message
  | extraction package entry target fault =>
      "Failed to extract " ++ entry ++ " from " ++ package ++ " into " ++ target.text ++ ": " ++
        fault.message
  | archive path fault => "Failed to read archive " ++ path.text ++ ": " ++ fault.archiveMessage
  | staging path fault => "Failed to stage " ++ path.text ++ ": " ++ fault.message
  | guestImage path fault =>
      match fault with
      | some f => "Failed to load guest image " ++ path.text ++ ": " ++ f.message
      | none => "Failed to load guest image " ++ path.text ++ ": it is not a valid module"
  | instantiation program => "Guest '" ++ program ++ "' could not be instantiated"
  | memoryBounds minimum maximum =>
      s!"guest memory of at least {minimum} pages exceeds the allowed {maximum}"
  | trap program message output =>
      "Guest '" ++ program ++ "' trapped: " ++ message ++ "\n" ++ output.text
  | nonZeroExit program code output =>
      "Guest '" ++ program ++ "' exited with code " ++ toString code ++ "\n" ++ output.text
  | decode program type error =>
      "Failed to decode " ++ type ++ " written by guest '" ++ program ++ "': " ++ error.message
  | unresolvedDependency name referencedBy =>
      "Dependency '" ++ name ++ "' imported by '" ++ referencedBy ++
        "' was not found in any include directory"
  | dependencyCycle name =>
      "Import cycle detected: '" ++ name ++ "' is imported while it is still being resolved"
  | invalidRequest fault => "Invalid compilation request: " ++ fault.message
  | generatorFailed id fault => "Generator '" ++ id ++ "' failed: " ++ fault.message
  | invalidOutputPath generator path =>
      "Generator '" ++ generator ++ "' produced an invalid output path '" ++ path ++ "'"
  | outputConflict path first second =>
      "Output path '" ++ path ++ "' produced by both '" ++ first ++ "' and '" ++ second ++ "'"
  | write path fault => "Failed to write " ++ path.text ++ ": " ++ fault.message
  | io message => "IO error: " ++ message

/-- Whether nothing after a failure can be relied on: a guest or settings asked for what
cannot be. -/
def isFatal : Failure → Bool
  | memoryBounds .. => true
  | settings (.strayIndex _) => true
  | _ => false

end Failure

/-- An operation on files that may end a run. -/
abbrev RunAction := ExceptT Failure (StateM Files.Disk)

/-- An operation on files as a step of a run. -/
def Files.FileAction.orFail {α : Type} (a : Files.FileAction α) (f : Files.Fault → Failure) :
    RunAction α := ExceptT.adapt f a

/-- A computation on the disk as it is, as a step of a run. -/
def RunAction.inspect {α : Type} (f : Files.Disk → Except Failure α) : RunAction α := do
  match f (← get) with
  | .ok a => pure a
  | .error e => throw e

end ProtoForge
