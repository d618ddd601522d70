import ProtoForge.Failure

/-!
# Output transactions

Several files are written as one unit. Each is first written to a scratch file
near its target; a commit then moves all of them into place. When a move
fails, a journal undoes the earlier ones: new files are removed, replaced
files come back, and directories made on the way are removed again.
-/
namespace ProtoForge.Output

open Files

/-- How the names of scratch files begin. -/
def scratchStem : String := ".protoc-sandbox-"

/-- A file that was staged: where it goes and where it waits. -/
structure Pending where
  target : Path
  scratch : Path
  deriving DecidableEq, Repr

/-- The files staged so far, in order. -/
structure Transaction where
  pending : List Pending := []
  deriving DecidableEq, Repr

/-- The closest directory above a target that exists. -/
def nearestDirectory (d : Disk) (target : Path) : Path :=
  ((target.ancestors.drop 1).find? d.isDirectory).getD ⟨"."⟩

/-- Makes a scratch file near a target. -/
def scratchFor (target : Path) (b : Bytes) : FileAction Path := do
  let dir := nearestDirectory (← get) target
  makeScratch dir scratchStem b

/-- The disk without a scratch file. -/
def discard (scratch : Path) (d : Disk) : Disk := (removeFile scratch).after d

/-- The disk without several scratch files. -/
def discardAll (scratches : List Path) (d : Disk) : Disk :=
  scratches.foldl (fun d scratch => discard scratch d) d

namespace Transaction

/-- Writes a content to a scratch file; nothing shows at the target yet. -/
def stage (t : Transaction) (target : Path) (b : Bytes) : RunAction Transaction := do
  let scratch ← (scratchFor target b).orFail (.write target)
  pure ⟨t.pending ++ [⟨target, scratch⟩]⟩

/-- Removes all scratch files. -/
def abandon (t : Transaction) (d : Disk) : Disk := discardAll (t.pending.map (·.scratch)) d

/-- Stages several files; if one cannot be staged, none stays. -/
def stageAll (t : Transaction) : List (Path × Bytes) → RunAction Transaction
  | [] => pure t
  | (target, b) :: rest => do
      let t' ← tryCatch (t.stage target b) fun e => do
        modify t.abandon
        throw e
      t'.stageAll rest

end Transaction

/-- A file that was moved into place, and where the one before it is kept. -/
structure Placed where
  target : Path
  backup : Option Path
  deriving DecidableEq, Repr

/-- What a commit changed so far, the latest change first. -/
structure Journal where
  directories : List Path := []
  placed : List Placed := []
  deriving DecidableEq, Repr

/-- The disk and the journal during a commit. -/
structure CommitState where
  disk : Disk
  journal : Journal

/-- A step of a commit; disk and journal outlive its failure. -/
abbrev CommitAction := ExceptT Failure (StateM CommitState)

namespace CommitAction

/-- An operation on files as a step of a commit. -/
def onDisk {α : Type} (a : FileAction α) (f : Fault → Failure) : CommitAction α := do
  let s ← get
  let (result, disk) := a.run.run s.disk
  set { s with disk := disk }
  match result with
  | .ok x => pure x
  | .error e => throw (f e)

/-- An operation on files whose failure does not matter. -/
def quietly (a : FileAction Unit) : CommitAction Unit :=
  modify fun s => { s with disk := a.after s.disk }

/-- Notes a change in the journal. -/
def note (f : Journal → Journal) : CommitAction Unit :=
  modify fun s => { s with journal := f s.journal }

end CommitAction

open CommitAction

/-- The directories that have to be made for a path, outermost first. -/
def missingDirectories (d : Disk) (dir : Path) : List Path :=
  (dir.ancestors.takeWhile fun p => !p.text.isEmpty && !d.reaches p).reverse

/-- Makes the missing directories of a path. -/
def makeMissing (dir : Path) : CommitAction Unit := do
  let missing := missingDirectories (← get).disk dir
  missing.forM fun p => do
    onDisk (makeDirectory p) (.write p)
    note fun j => { j with directories := p :: j.directories }

/-- Moves a file that is in the way of a target aside. -/
def takeBackup (target : Path) : CommitAction (Option Path) := do
  if (← get).disk.isFile target then
    let backup ← onDisk (scratchFor target []) (.write target)
    tryCatch (onDisk (moveFile target backup) (.write target)) fun e => do
      quietly (removeFile backup)
      throw e
    pure (some backup)
  else pure none

/-- Moves a file that was put aside back to its target. -/
def restore (backup target : Path) : CommitAction Unit := do
  quietly (moveFile backup target)
  quietly (removeFile backup)

/-- Moves one staged file into place. -/
def place (p : Pending) : CommitAction Unit := do
  if let some dir := p.target.parent? then makeMissing dir
  let backup ← takeBackup p.target
  tryCatch (onDisk (moveFile p.scratch p.target) (.write p.target)) fun e => do
    if let some b := backup then restore b p.target
    throw e
  note fun j => { j with placed := ⟨p.target, backup⟩ :: j.placed }

/-- Undoes all changes of the journal, the latest first. -/
def rollBack : CommitAction Unit := do
  let j := (← get).journal
  j.placed.forM fun p =>
    match p.backup with
    | some b => restore b p.target
    | none => quietly (removeFile p.target)
  j.directories.forM fun dir => quietly (removeDirectory dir)

/-- Moves staged files into place, or undoes all of it. -/
def placeAll : List Pending → CommitAction Unit
  | [] => pure ()
  | p :: rest => do
      tryCatch (place p) fun e => do
        quietly (removeFile p.scratch)
        rollBack
        rest.forM fun q => quietly (removeFile q.scratch)
        throw e
      placeAll rest

namespace Transaction

/-- Moves all staged files into place; the targets in order. -/
def commit (t : Transaction) : RunAction (List Path) := do
  let (result, final) := (placeAll t.pending).run.run ⟨← get, {}⟩
  match result with
  | .ok () =>
      set (discardAll (final.journal.placed.filterMap (·.backup)) final.disk)
      pure (t.pending.map (·.target))
  | .error e =>
      set final.disk
      throw e

end Transaction

/-- Writes several files as one unit. -/
def writeAll (files : List (Path × Bytes)) : RunAction (List Path) := do
  let t ← Transaction.stageAll {} files
  t.commit

end ProtoForge.Output
