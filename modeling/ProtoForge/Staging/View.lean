import ProtoForge.Digest.Framed
import ProtoForge.OrderedMap
import ProtoForge.Output.Transaction

/-!
# Staged views

The files that a guest will see, by name, with the directories that hold them.
A view lives in memory; while a guest runs it is written to a private
directory, which is removed afterwards.
-/
namespace ProtoForge.Staging

open Files

/-- The ordinary names of a path, joined by slashes. -/
def canonicalName (p : Path) : String :=
  "/".intercalate (p.components.filterMap fun
    | .name s => some s
    | _ => none)

/-- A file of a view; its permissions are known if it came from disk. -/
structure StagedFile where
  bytes : Bytes
  mode : Option Nat
  deriving DecidableEq, Repr

/-- Files and directories by name. -/
structure View where
  files : OrderedMap StagedFile := []
  directories : OrderedMap (Option Nat) := []
  deriving DecidableEq, Repr

namespace View

/-- Whether a name is a file. -/
def contains (v : View) (name : String) : Bool := v.files.contains name

/-- The file of a name. -/
def get? (v : View) (name : String) : Option StagedFile := v.files.get? name

/-- The directories that hold a name, by their own names. -/
def parentNames (name : String) : List String :=
  (((Path.mk name).ancestors.drop 1).takeWhile fun p => !p.text.isEmpty).map canonicalName

/-- Adds a directory unless it is known. -/
def addDirectory (v : View) (name : String) (mode : Option Nat) : View :=
  { v with directories := v.directories.insertNew name mode }

/-- Adds or replaces a file; the directories that hold it are added. -/
def addFile (v : View) (name : String) (file : StagedFile) : View :=
  let v := (parentNames name).foldl (fun v dir => v.addDirectory dir none) v
  { v with files := v.files.insert name file }

/-- Adds or replaces a file with given bytes. -/
def insert (v : View) (name : String) (b : Bytes) : View := v.addFile name ⟨b, none⟩

/-- The named contents of a view. -/
def parts (v : View) : List (String × Bytes) := v.files.map fun f => (f.1, f.2.bytes)

/-- The hash of all names and contents. -/
def digest (v : View) : String := Digest.ofParts v.parts

/-- The owner's permissions, which directories always have. -/
def ownerMode : Nat := 0o700

/-- Permissions with those of the owner added. -/
def withOwner (mode : Nat) : Nat := mode ||| ownerMode

/-- Makes the directories of a view below a root. -/
def writeDirectories (root : Path) (names : List String) : RunAction Unit :=
  names.forM fun name =>
    let p := root.join ⟨name⟩
    (makeDirectories p).orFail (.staging p)

/-- Writes a file of a view below a root. -/
def writeStaged (root : Path) (name : String) (file : StagedFile) : RunAction Unit := do
  let p := root.join ⟨name⟩
  if let some parent := p.parent? then (makeDirectories parent).orFail (.staging parent)
  (writeFile p file.bytes).orFail (.staging p)
  if let some mode := file.mode then (setMode p mode).orFail (.staging p)

/-- Writes a view below a root. Permissions of directories come last, the deepest first. -/
def writeTo (v : View) (root : Path) : RunAction Unit := do
  writeDirectories root v.directories.keys
  v.files.forM fun f => writeStaged root f.1 f.2
  v.directories.reverse.forM fun d => do
    let p := root.join ⟨d.1⟩
    if let some mode := d.2 then (setMode p (withOwner mode)).orFail (.staging p)

/-- The directory for scratch directories. -/
def scratchRoot : Path := ⟨"/tmp"⟩

/-- Writes a view to a directory of its own; if that fails, the directory is removed again. -/
def materialize (v : View) : RunAction Path := do
  let root ← (makeScratchDirectory scratchRoot "protoc-sandbox-").orFail (.staging scratchRoot)
  tryCatch (v.writeTo root) fun e => do
    modify (removeTree root).after
    throw e
  pure root

/-- Removes the directory of a view. -/
def dispose (root : Path) : RunAction Unit := modify (removeTree root).after

end View

end ProtoForge.Staging
