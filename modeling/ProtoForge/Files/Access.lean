import ProtoForge.Files.Disk

/-!
# File operations

Reading and changing a disk through paths. An operation that fails leaves the
disk as it was, except that making a directory with its parents keeps the
parents made so far.
-/
namespace ProtoForge.Files

/-- An operation on a disk that may fail; what it did before failing stays. -/
abbrev FileAction := ExceptT Fault (StateM Disk)

namespace FileAction

/-- Runs a computation that only looks at the disk. -/
def inspect {α : Type} (f : Disk → Except Fault α) : FileAction α := do
  let d ← get
  match f d with
  | .ok a => pure a
  | .error e => throw e

/-- The disk that an operation leaves, whether it fails or not. -/
def after {α : Type} (a : FileAction α) (d : Disk) : Disk := (a.run.run d).2

end FileAction

/-- The permissions of new directories and files, and of scratch files. -/
def directoryMode : Nat := 0o755

/-- The permissions of new files. -/
def fileMode : Nat := 0o644

/-- The permissions of scratch files. -/
def scratchMode : Nat := 0o600

namespace Disk

/-- The permissions of a new directory; the group of its parent is passed on. -/
def inheritedMode (d : Disk) (parent : Location) : Nat :=
  match d.get? parent with
  | some (.directory m) => directoryMode + if m / 0o2000 % 2 = 1 then 0o2000 else 0
  | _ => directoryMode

/-- Where a new entry comes to lie. -/
def newEntry (d : Disk) (p : Path) : Except Fault Location := do
  let place ← d.place p
  match place.last with
  | .name s =>
      if maxName < Bytes.textSize s then throw .nameTooLong
      if (d.get? (place.parent ++ [s])).isSome then throw .alreadyExists
      pure (place.parent ++ [s])
  | _ => throw .alreadyExists

/-- The content of the file that a path leads to. -/
def read (d : Disk) (p : Path) : Except Fault Content := do
  let (_, e) ← d.status p
  match e with
  | .file c _ => pure c
  | _ => throw .isDirectory

/-- The location of a file or link that is to be removed. -/
def removable (d : Disk) (p : Path) : Except Fault Location := do
  let place ← d.place p
  match place.last with
  | .name s =>
      let l := place.parent ++ [s]
      match d.get? l with
      | none => throw .missing
      | some (.directory _) => throw .isDirectory
      | some _ => if place.slashAtEnd then throw .notDirectory else pure l
  | _ => throw .isDirectory

/-- The location of an empty directory that is to be removed. -/
def removableDirectory (d : Disk) (p : Path) : Except Fault Location := do
  let place ← d.place p
  match place.last with
  | .name s =>
      let l := place.parent ++ [s]
      match d.get? l with
      | none => throw .missing
      | some (.directory _) => if d.hasChildren l then throw .notEmpty else pure l
      | some _ => throw .notDirectory
  | _ => throw .busy

/-- The locations between which a file or link moves, and what moves. A name with a zero is
an argument that moves do not take. -/
def movable (d : Disk) (source target : Path) : Except Fault (Location × Location × Entry) := do
  if target.text.contains '\x00' then throw .invalidArgument
  let origin ← d.place source
  let goal ← d.place target
  match origin.last, goal.last with
  | .name s, .name t =>
      match d.get? (origin.parent ++ [s]) with
      | none => throw .missing
      | some (.directory _) => throw .isDirectory
      | some e =>
          if maxName < Bytes.textSize t then throw .nameTooLong
          if origin.slashAtEnd || goal.slashAtEnd then throw .notDirectory
          match d.get? (goal.parent ++ [t]) with
          | some (.directory _) => throw .isDirectory
          | _ => pure (origin.parent ++ [s], goal.parent ++ [t], e)
  | _, _ => throw .busy

/-- A number with at least six digits. -/
def sixDigits (n : Nat) : String :=
  let digits := (toString n).toList
  String.ofList (List.replicate (6 - digits.length) '0' ++ digits)

/-- A name with a given start that no entry of a directory has. -/
def freshName (d : Disk) (dir : Location) (stem : String) : String :=
  let candidates := (List.range (d.entries.length + 1)).map fun n => stem ++ sixDigits n
  (candidates.find? fun s => (d.get? (dir ++ [s])).isNone).getD stem

end Disk

/-- Makes a directory. -/
def makeDirectory (p : Path) : FileAction Unit := do
  let l ← FileAction.inspect (·.newEntry p)
  modify fun d => d.put l (.directory (d.inheritedMode l.dropLast))

/-- Makes a directory unless there is one. -/
def ensureDirectory (p : Path) : FileAction Unit :=
  tryCatch (makeDirectory p) fun e => do
    if (← get).isDirectory p then pure () else throw e

/-- Makes a directory and those of its parents that are missing. -/
def makeDirectoriesFrom : List Path → FileAction Unit
  | [] => pure ()
  | p :: parents =>
      if p.text.isEmpty then pure ()
      else
        tryCatch (ensureDirectory p) fun e => do
          if e = .missing then
            makeDirectoriesFrom parents
            ensureDirectory p
          else throw e

/-- Makes a directory with all its parents. -/
def makeDirectories (p : Path) : FileAction Unit := makeDirectoriesFrom p.ancestors

/-- The content of a file. -/
def readFile (p : Path) : FileAction Content := FileAction.inspect (·.read p)

/-- Writes a file; an existing one keeps its permissions. -/
def writeFile (p : Path) (b : Bytes) : FileAction Unit := do
  let l ← FileAction.inspect fun d => d.writeTarget Disk.maxLinks d.workingDirectory p.text
  modify fun d =>
    let mode := match d.get? l with
      | some (.file _ m) => m
      | _ => fileMode
    d.put l (.file (.bytes b) mode)

/-- Removes a file or link. -/
def removeFile (p : Path) : FileAction Unit := do
  let l ← FileAction.inspect (·.removable p)
  modify (·.erase l)

/-- Removes an empty directory. -/
def removeDirectory (p : Path) : FileAction Unit := do
  let l ← FileAction.inspect (·.removableDirectory p)
  modify (·.erase l)

/-- Moves a file or link, in place of a file or link that was there. -/
def moveFile (source target : Path) : FileAction Unit := do
  let (a, b, e) ← FileAction.inspect (·.movable source target)
  modify fun d => if a = b then d else (d.erase a).put b e

/-- Sets the permissions of what a path leads to. -/
def setMode (p : Path) (mode : Nat) : FileAction Unit := do
  let (l, e) ← FileAction.inspect (·.status p)
  modify fun d =>
    match e with
    | .file c _ => d.put l (.file c mode)
    | .directory _ => d.put l (.directory mode)
    | .link _ => d

/-- Makes a private file of a new name in a directory; its path. -/
def makeScratch (dir : Path) (stem : String) (b : Bytes) : FileAction Path := do
  let l ← FileAction.inspect (·.locate dir true)
  let d ← get
  let p := (d.absolutize dir).join ⟨d.freshName l stem⟩
  let new ← FileAction.inspect fun d => (d.newEntry p).mapError (.creating p.text)
  set (d.put new (.file (.bytes b) scratchMode))
  pure p

/-- Makes a directory of a new name below another one; its path. -/
def makeScratchDirectory (dir : Path) (stem : String) : FileAction Path := do
  let l ← FileAction.inspect (·.locate dir true)
  let d ← get
  let name := d.freshName l stem
  set (d.put (l ++ [name]) (.directory directoryMode))
  pure (dir.join ⟨name⟩)

/-- Removes a directory with all that it holds. -/
def removeTree (p : Path) : FileAction Unit := do
  let l ← FileAction.inspect (·.locate p true)
  modify (·.eraseTree l)

end ProtoForge.Files
