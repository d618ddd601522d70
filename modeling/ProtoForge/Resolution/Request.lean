import ProtoForge.Digest.Sha256
import ProtoForge.Plugin.Request
import ProtoForge.Resolution.Closure
import ProtoForge.Resolution.Graph

/-!
# Compilation requests

The closure of a list of roots, in an order in which every file comes after
the files that it imports.
-/
namespace ProtoForge.Resolution

/-- Descriptors in order, and the names of the roots that they were built from. -/
structure CompilationRequest where
  files : List FileDescriptor
  roots : List String

namespace CompilationRequest

/-- The names of the descriptors. -/
def names (r : CompilationRequest) : List String := r.files.map (·.name)

/-- Whether a name is that of a root. -/
def isRoot (r : CompilationRequest) (name : String) : Bool := r.roots.contains name

/-- The message for generators. -/
def toGeneratorRequest (r : CompilationRequest) : Plugin.Request where
  filesToGenerate := r.roots
  files := r.files
  sourceFiles := r.files

/-- The bytes of all descriptors as one set. -/
def encodeDescriptorSet (r : CompilationRequest) : Bytes := ProtoForge.encodeDescriptorSet r.files

/-- The hash of all descriptors. -/
def checksum (r : CompilationRequest) : String := Digest.sha256 r.encodeDescriptorSet

/-- The graph of imports. -/
def dependencyGraph (r : CompilationRequest) : DependencyGraph := .ofFiles r.files

/-- The first name that occurs a second time. -/
def repeated? : (seen : List String) → List String → Option String
  | _, [] => none
  | seen, n :: rest => if seen.contains n then some n else repeated? (n :: seen) rest

/-- Refuses an import that is not among the names before the file's own. -/
def checkImport (names : List String) (index : Nat) (name dependency : String) :
    Except RequestFault Unit :=
  match names.idxOf? dependency with
  | none => .error (.absent name dependency)
  | some position =>
      if index ≤ position then .error (.misordered name dependency) else .ok ()

/-- Refuses files that do not come after all that they import. -/
def checkImports (names : List String) : (index : Nat) → List FileDescriptor →
    Except RequestFault Unit
  | _, [] => .ok ()
  | index, f :: rest => do
      f.dependencies.forM (checkImport names index f.name)
      checkImports names (index + 1) rest

/-- Refuses a request whose names repeat or whose files are out of order. -/
def verifyOrder (r : CompilationRequest) : Except RequestFault Unit := do
  match repeated? [] r.names with
  | some name => throw (.repeated name)
  | none => pure ()
  checkImports r.names 0 r.files
  if r.dependencyGraph.isCyclic then throw .cyclic

/-- The first root that a closure does not contain. -/
def missingRoot? (c : Closure) (roots : List String) : Option String :=
  roots.find? fun root => !c.contains root

variable {σ : Type}

/-- Compiles the roots together and completes them by all that they import. -/
def build (source : DescriptorSource σ) (depth : Nat) (roots : List String) :
    ResolveAction σ CompilationRequest := do
  if roots.isEmpty then throw (.invalidRequest .noRoots)
  let compiled ← source.compile roots
  let closure ← resolve source depth compiled .empty
  match missingRoot? closure roots with
  | some root => throw (.invalidRequest (.missingRoot root))
  | none =>
      let request : CompilationRequest := ⟨closure.files, roots⟩
      match request.verifyOrder with
      | .error fault => throw (.invalidRequest fault)
      | .ok () => pure request

end CompilationRequest

end ProtoForge.Resolution
