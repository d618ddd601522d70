import ProtoForge.Failure
import ProtoForge.Generation.OutputPath
import ProtoForge.Output.Transaction
import ProtoForge.Plugin.Response

/-!
# Generated batches

The files of several generators together. No two files have the same path and
no file lies where another one needs a directory. Two indexes answer which
generator claims a path: one for files and one for the directories that they
imply, each directory going to the first generator that wrote below it.
-/
namespace ProtoForge.Generation

/-- A generated file. -/
structure GeneratedFile where
  path : String
  content : Bytes
  generator : String
  deriving DecidableEq, Repr

/-- The files so far, with the generators that claim files and directories. -/
structure Batch where
  files : List GeneratedFile := []
  owners : List (String × String) := []
  directories : List (String × String) := []
  deriving DecidableEq, Repr

namespace Batch

/-- No files. -/
def empty : Batch := {}

/-- The file of a path. -/
def get? (b : Batch) (path : String) : Option GeneratedFile := b.files.find? (·.path = path)

/-- The generator that claims a path: as the same file, as a file where the path
needs a directory, or as a directory where the path is a file. -/
def overlappingOwner? (b : Batch) (path : String) : Option String :=
  (b.owners.lookup path).or
    (((parentDirectories path).findSome? fun dir => b.owners.lookup dir).or
      (b.directories.lookup path))

/-- Gives a directory to a generator unless it has one. -/
def claim (generator : String) (directories : List (String × String)) (dir : String) :
    List (String × String) :=
  if (directories.lookup dir).isSome then directories else directories ++ [(dir, generator)]

/-- Adds a file at a path that nobody claims. -/
def push (b : Batch) (file : GeneratedFile) : Batch where
  files := b.files ++ [file]
  owners := b.owners ++ [(file.path, file.generator)]
  directories := (parentDirectories file.path).foldl (claim file.generator) b.directories

/-- Adds content to the last file. -/
def appendToLast (b : Batch) (content : Bytes) : Batch :=
  match b.files.getLast? with
  | some last =>
      { b with files := b.files.dropLast ++ [{ last with content := last.content ++ content }] }
  | none => b

/-- The text of an optional field. -/
def textOf (s : Option String) : String := s.getD ""

/-- Adds a named entry of a response. -/
def addNamed (generator : String) (b : Batch) (name : String) (content : Bytes) :
    Except Failure Batch :=
  match normalizePath? name with
  | none => .error (.invalidOutputPath generator name)
  | some path =>
      match b.overlappingOwner? path with
      | some first => .error (.outputConflict path first generator)
      | none => .ok (b.push ⟨path, content, generator⟩)

/-- Adds one entry of a response; `started` tells whether one came before it. -/
def addEntry (generator : String) (started : Bool) (b : Batch) (e : Plugin.ResponseFile) :
    Except Failure Batch :=
  let content := Bytes.ofText (textOf e.content)
  if textOf e.insertionPoint ≠ "" then
    .error (.generatorFailed generator (.insertionPoint (textOf e.insertionPoint)))
  else if textOf e.name = "" then
    if started then .ok (b.appendToLast content)
    else .error (.generatorFailed generator .strayContinuation)
  else addNamed generator b (textOf e.name) content

/-- Adds entries one by one up to the first that cannot be added. -/
def addEntries (generator : String) : (started : Bool) → Batch → List Plugin.ResponseFile →
    Except Failure Unit × Batch
  | _, b, [] => (.ok (), b)
  | started, b, e :: rest =>
      match addEntry generator started b e with
      | .error f => (.error f, b)
      | .ok b' => addEntries generator true b' rest

/-- Adds the response of a generator; what was added before a failure stays. -/
def add (b : Batch) (generator : String) (r : Plugin.Response) : Except Failure Unit × Batch :=
  if textOf r.error ≠ "" then
    (.error (.generatorFailed generator (.reported (textOf r.error))), b)
  else addEntries generator false b r.files

/-- The files with their places below a directory. -/
def outputs (b : Batch) (outDir : Path) : List (Path × Bytes) :=
  b.files.map fun f => (outDir.join ⟨f.path⟩, f.content)

/-- Writes all files below a directory, or none. -/
def writeTo (b : Batch) (outDir : Path) : RunAction (List Path) :=
  Output.writeAll (b.outputs outDir)

end Batch

end ProtoForge.Generation
