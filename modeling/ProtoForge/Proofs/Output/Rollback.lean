import ProtoForge.Proofs.Output.Accounts

/-!
# Rolling back

What the actions of a commit that cannot fail do to the disk. Rolling back
undoes all moves of the journal, the latest first, and removes all directories
that it has.
-/
namespace ProtoForge.Output

open Files

variable {d : Disk} {k l : Location}

/-- The journal of a commit that made some moves and directories. -/
def journalOf (moves : List Move) (made : List Made) : Journal :=
  ⟨made.map Made.path, moves.map Move.placed⟩

theorem outcome_onDisk {α : Type} (a : FileAction α) (f : Fault → Failure) (d : Disk)
    (j : Journal) :
    outcome (CommitAction.onDisk a f) ⟨d, j⟩ =
      match outcome a d with
      | (.ok x, d') => (.ok x, ⟨d', j⟩)
      | (.error e, d') => (.error (f e), ⟨d', j⟩) := by
  rw [CommitAction.onDisk, outcome_bind, outcome_get]
  have hrun : a.run.run d = outcome a d := rfl
  dsimp only
  rw [hrun]
  rcases outcome a d with ⟨r | r, d'⟩ <;> rfl

@[simp] theorem outcome_quietly (a : FileAction Unit) (d : Disk) (j : Journal) :
    outcome (CommitAction.quietly a) ⟨d, j⟩ = (.ok (), ⟨a.after d, j⟩) := rfl

/-- Quiet actions, one for each member of a list, change the disk only. -/
theorem outcome_forM_quietly {α : Type} {f : α → CommitAction Unit} {g : Disk → α → Disk}
    (h : ∀ x d j, outcome (f x) ⟨d, j⟩ = (.ok (), ⟨g d x, j⟩)) (xs : List α) (d : Disk)
    (j : Journal) : outcome (xs.forM f) ⟨d, j⟩ = (.ok (), ⟨xs.foldl g d, j⟩) := by
  rw [outcome_forM_of_ok (g := fun s x => ⟨g s.disk x, s.journal⟩) fun x s => h x s.disk s.journal]
  congr 1
  induction xs generalizing d with
  | nil => rfl
  | cons x xs ih => exact ih (g d x)

/-- The disk after a file that was put aside went back to its target. -/
def restored (backup target : Path) (d : Disk) : Disk :=
  (removeFile backup).after ((moveFile backup target).after d)

/-- The disk after one entry of the journal was undone. -/
def Placed.takeBack (p : Placed) (d : Disk) : Disk :=
  match p.backup with
  | some b => restored b p.target d
  | none => (removeFile p.target).after d

/-- Moving something back to where it was put aside from leaves no backup to remove. -/
theorem restored_eq {backup target : Path} {y : Entry}
    (hbackup : d.Names backup l false) (htarget : d.Names target k false) (hl : d.get? l = some y)
    (hy : y.isDirectory = false) (hk : ¬ d.HasDirectory k) (hne : l ≠ k)
    (hafter : ((d.erase l).put k y).Names backup l false) :
    restored backup target d = (d.erase l).put k y := by
  have hgone : ((d.erase l).put k y).get? l = none := by
    rw [Disk.get?_put_eq htarget.ne_nil, Function.update_of_ne hne,
      Disk.get?_erase_eq hbackup.ne_nil, Function.update_self]
  rw [restored, moveFile_after hbackup htarget hl hy hk hne,
    removeFile_after_of_absent hafter hgone]

/-- The disk after everything in a journal was undone. -/
def Journal.takenBack (j : Journal) (d : Disk) : Disk :=
  j.directories.foldl (fun d p => (removeDirectory p).after d)
    (j.placed.foldl (fun d p => p.takeBack d) d)

theorem outcome_rollBack (d : Disk) (j : Journal) :
    outcome rollBack ⟨d, j⟩ = (.ok (), ⟨j.takenBack d, j⟩) := by
  rw [rollBack, outcome_bind, outcome_get]
  dsimp only
  rw [outcome_bind, outcome_forM_quietly (g := fun d p => p.takeBack d)]
  · dsimp only
    rw [outcome_forM_quietly (g := fun d p => (removeDirectory p).after d)]
    · rfl
    · exact fun _ _ _ => rfl
  · intro p d j
    rcases p with ⟨target, _ | backup⟩ <;> rfl

end ProtoForge.Output
