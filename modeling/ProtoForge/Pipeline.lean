import ProtoForge.Generation.Dispatcher
import ProtoForge.Guest.Compiler
import ProtoForge.Sources.Collection
import ProtoForge.Staging.Stage

/-!
# Runs

A run collects the schema files, stages them, compiles the roots, completes
them by all that they import, asks the generators, and writes what they
generate as one unit. Nothing is compiled before all of the configuration has
been checked.
-/
namespace ProtoForge.Pipeline

open Generation Settings

/-- What a run did. -/
structure Report where
  processed : Bool := false
  roots : List String := []
  requestFiles : Nat := 0
  requestChecksum : Option String := none
  written : List Path := []
  descriptorSet : Option Path := none
  diagnostics : Diagnostics := []
  deriving DecidableEq, Repr

/-- A report as a document, its findings apart. -/
def Report.toDocument (r : Report) (diagnostics : Document.Value) : Document.Value :=
  .table [("processed", .bool r.processed), ("roots", .texts r.roots),
    ("request_files", .nat r.requestFiles), ("request_checksum", .optText r.requestChecksum),
    ("written", .texts (r.written.map (·.text))),
    ("descriptor_set", .optText (r.descriptorSet.map (·.text))),
    ("diagnostics", diagnostics)]

/-- A generator that was chosen for a run; images are loaded later. -/
inductive Planned (γ : Type) where
  | registered (g : γ)
  | guest (id : String) (image : Path) (args : List String)
  deriving Repr

/-- Takes the first generator of an id out of a list. -/
def takeFirst? {γ : Type} (idOf : γ → String) (id : String) : List γ → Option (γ × List γ)
  | [] => none
  | g :: rest =>
      if idOf g = id then some (g, rest)
      else (takeFirst? idOf id rest).map fun found => (found.1, g :: found.2)

/-- Chooses a generator for each enabled id: a registered one while there are
any left of that id, else the configured guest. -/
def planGenerators {γ : Type} (c : Config) (idOf : γ → String) :
    (enabled : List String) → (registered : List γ) → Except Failure (List (Planned γ))
  | [], _ => .ok []
  | id :: rest, registered =>
      match takeFirst? idOf id registered with
      | some (g, left) => do
          let plan ← planGenerators c idOf rest left
          pure (.registered g :: plan)
      | none =>
          match c.generators.guests.get? id with
          | none => .error (.unknownGenerator id)
          | some guest => do
              let plan ← planGenerators c idOf rest registered
              pure (.guest id (guest.image.getD c.sandbox.compilerImage) guest.args :: plan)

variable {ε : Type}

/-- A chosen generator with its image loaded. -/
def buildGenerator (c : Config) : Planned (HostGenerator ε) → WorldAction ε (Generator ε)
  | .registered g => pure (.host g)
  | .guest id path args => do
      let image ← WorldAction.loadImage path
      pure (.guest ⟨id, c.sandbox.programName, image, args, .ofConfig c.sandbox⟩)

/-- A run whose files are staged. -/
structure Prepared (ε : Type) where
  config : Config
  generators : List (Generator ε)
  staged : Staging.Staged
  diagnostics : Diagnostics

/-- Checks the configuration, collects and stages; `none` if there is nothing to do. -/
def prepare (c : Config) (packages : List Package.Resolved) (registered : List (HostGenerator ε)) :
    WorldAction ε (Option (Prepared ε)) := do
  if c.skip then return none
  if let .error f := c.validate then throw (.invalidConfig f)
  let plan ← ExceptT.mk (pure (planGenerators c (·.id) c.generators.enabled registered))
  let found ← WorldAction.onDisk (Sources.collect c packages)
  if found.roots.isEmpty then return none
  let generators ← plan.mapM (buildGenerator c)
  let staged ← WorldAction.onDisk
    (RunAction.inspect fun d => Staging.stage d found.includes found.imports found.roots)
  return some ⟨c, generators, staged, found.diagnostics ++ staged.diagnostics⟩

namespace Prepared

/-- The guest compiler over the staged files. -/
def compiler (p : Prepared ε) : WorldAction ε Guest.Compiler := do
  let image ← WorldAction.loadImage p.config.sandbox.compilerImage
  pure (.ofConfig image p.config.sandbox p.staged.view)

/-- Where the descriptor set goes, if it is wanted. -/
def descriptorSetPath? (p : Prepared ε) (d : Files.Disk) : Option Path :=
  if p.config.descriptorSet.generate then some (p.config.descriptorSetPath d) else none

/-- Compiles, generates and writes. -/
def finish (p : Prepared ε) (source : Resolution.DescriptorSource (World ε)) (depth : Nat) :
    WorldAction ε Report := do
  let request ← Resolution.CompilationRequest.build source depth p.staged.rootNames
  let batch ← dispatch p.generators request p.staged.view
  let d := (← get).disk
  let descriptorSet := p.descriptorSetPath? d
  let extra := descriptorSet.toList.map fun path => (path, request.encodeDescriptorSet)
  let written ← WorldAction.onDisk
    (Output.writeAll (batch.outputs (p.config.outDir d) ++ extra))
  pure {
    processed := true
    roots := request.roots
    requestFiles := request.files.length
    requestChecksum := some request.checksum
    written := written.filter fun path => !descriptorSet.any (·.same path)
    descriptorSet := descriptorSet
    diagnostics := p.diagnostics }

end Prepared

/-- Runs with the guest compiler. -/
def execute (c : Config) (packages : List Package.Resolved) (registered : List (HostGenerator ε))
    (depth : Nat) : WorldAction ε Report := do
  match ← prepare c packages registered with
  | none => pure {}
  | some prepared =>
      let compiler ← prepared.compiler
      prepared.finish compiler.source depth

end ProtoForge.Pipeline
