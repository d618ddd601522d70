import ProtoForge.Failure
import ProtoForge.FileDescriptor

/-!
# Import closures

The descriptors of a set of files are completed by those of all files that
they import, directly or not. The walk goes depth first and emits a file after
the files that it imports; a file met again while it is being expanded is a
cycle. A compiler may answer anything, so the nesting of compilations is
bounded by a depth.
-/
namespace ProtoForge.Resolution

/-- A compiler with a state: which files it knows, and their descriptors. -/
structure DescriptorSource (σ : Type) where
  locate : String → StateM σ Bool
  compile : List String → ExceptT Failure (StateM σ) (List FileDescriptor)

/-- A step that may consult a compiler. -/
abbrev ResolveAction (σ : Type) := ExceptT Failure (StateM σ)

/-- The emitted files, and the names that are done or being expanded. -/
structure Closure where
  visited : List String := []
  inProgress : List String := []
  files : List FileDescriptor := []

namespace Closure

/-- No files. -/
def empty : Closure := {}

/-- Whether a name is done. -/
def contains (c : Closure) (name : String) : Bool := c.visited.contains name

/-- Marks a name as done. -/
def markVisited (c : Closure) (name : String) : Closure :=
  if c.contains name then c else { c with visited := name :: c.visited }

/-- Marks a name as being expanded. -/
def start (c : Closure) (name : String) : Closure :=
  if c.inProgress.contains name then c else { c with inProgress := name :: c.inProgress }

/-- Ends the expansion of a file; it is emitted unless its name is done already. -/
def finish (c : Closure) (file : FileDescriptor) : Closure :=
  let c := { c with inProgress := c.inProgress.filter (· ≠ file.name) }
  if c.contains file.name then c
  else { c with visited := file.name :: c.visited, files := c.files ++ [file] }

end Closure

/-- How deep compilations nest at most. -/
def maxDepth : Nat := 1024

variable {σ : Type}

/-- What resolving a set of descriptors does to a closure. -/
abbrev SetResolver (σ : Type) := List FileDescriptor → Closure → ResolveAction σ Closure

/-- Brings in one import of a file. -/
def resolveImport (source : DescriptorSource σ) (nested : SetResolver σ) (name : String)
    (c : Closure) (dependency : String) : ResolveAction σ Closure := do
  if c.contains dependency then pure c
  else if c.inProgress.contains dependency then throw (.dependencyCycle dependency)
  else if !(← source.locate dependency) then throw (.unresolvedDependency dependency name)
  else
    let compiled ← source.compile [dependency]
    let c ← nested compiled c
    pure (c.markVisited dependency)

/-- Expands one file. -/
def resolveFile (source : DescriptorSource σ) (nested : SetResolver σ) (c : Closure)
    (file : FileDescriptor) : ResolveAction σ Closure := do
  if c.contains file.name then pure c
  else
    let c ← file.dependencies.foldlM (resolveImport source nested file.name) (c.start file.name)
    pure (c.finish file)

/-- Completes a closure by a set of descriptors and all that they import. -/
def resolve (source : DescriptorSource σ) : (depth : Nat) → SetResolver σ
  | 0, _, _ => throw (.invalidRequest .tooDeep)
  | depth + 1, set, c => set.foldlM (resolveFile source (resolve source depth)) c

end ProtoForge.Resolution
