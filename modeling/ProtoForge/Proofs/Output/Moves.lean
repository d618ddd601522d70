import ProtoForge.Output.Transaction
import ProtoForge.Proofs.Files.Operations

/-!
# Moves of a commit

A move puts a new file at a spot, and the file that was there before waits at
a backup. Moves are undone the latest first; what none of them touches is
carried through unchanged.
-/
namespace ProtoForge.Output

open Files

/-- A file that was moved to where its target leads, and where the one before it is kept. -/
structure Move where
  target : Path
  spot : Location
  bytes : Bytes
  backup : Option (Path × Location)

variable {m : Move} {ms : List Move} {v : View} {g l : Location} {x : Option Entry}

namespace Move

/-- The locations that a move changes. -/
def touched (m : Move) : List Location := m.spot :: (m.backup.map Prod.snd).toList

/-- What lay where before a move. -/
def undo (m : Move) (v : View) : View :=
  match m.backup with
  | some (_, b) => Function.update (Function.update v b none) m.spot (v b)
  | none => Function.update v m.spot none

/-- The paths of a move name its locations. -/
def NamedOn (m : Move) (d : Disk) : Prop :=
  d.Names m.target m.spot false ∧ ∀ q b, m.backup = some (q, b) → d.Names q b false

/-- What the journal says of a move. -/
def placed (m : Move) : Placed := ⟨m.target, m.backup.map Prod.fst⟩

theorem mem_touched_iff : l ∈ m.touched ↔ l = m.spot ∨ ∃ q, m.backup = some (q, l) := by
  simp [touched]

theorem spot_mem_touched (m : Move) : m.spot ∈ m.touched := List.mem_cons_self

theorem backup_mem_touched {q : Path} {b : Location} (h : m.backup = some (q, b)) :
    b ∈ m.touched := by
  simp [touched, h]

theorem undo_of_some {q : Path} {b : Location} (h : m.backup = some (q, b)) (v : View) :
    m.undo v = Function.update (Function.update v b none) m.spot (v b) := by
  rw [undo, h]

theorem undo_of_none (h : m.backup = none) (v : View) :
    m.undo v = Function.update v m.spot none := by
  rw [undo, h]

theorem undo_of_not_mem (hl : l ∉ m.touched) (v : View) : m.undo v l = v l := by
  have hspot : l ≠ m.spot := fun h => hl (h ▸ m.spot_mem_touched)
  cases hb : m.backup with
  | some qb =>
    have hbackup : l ≠ qb.2 := fun h => hl (h ▸ backup_mem_touched hb)
    rw [undo_of_some hb, Function.update_of_ne hspot, Function.update_of_ne hbackup]
  | none => rw [undo_of_none hb, Function.update_of_ne hspot]

theorem undo_update (hg : g ∉ m.touched) (v : View) (x : Option Entry) :
    m.undo (Function.update v g x) = Function.update (m.undo v) g x := by
  have hspot : m.spot ≠ g := fun h => hg (h ▸ m.spot_mem_touched)
  cases hb : m.backup with
  | some qb =>
    have hbackup : qb.2 ≠ g := fun h => hg (h ▸ backup_mem_touched hb)
    rw [undo_of_some hb, undo_of_some hb, Function.update_comm hbackup.symm,
      Function.update_comm hspot.symm, Function.update_of_ne hbackup]
  | none => rw [undo_of_none hb, undo_of_none hb, Function.update_comm hspot.symm]

end Move

/-- The locations that some moves change. -/
def touchedBy (ms : List Move) : List Location := ms.flatMap Move.touched

/-- What lay where before some moves, of which the latest comes first. -/
def undoAll (ms : List Move) (v : View) : View := ms.foldl (fun v m => m.undo v) v

@[simp] theorem undoAll_nil (v : View) : undoAll [] v = v := rfl

@[simp] theorem undoAll_cons (m : Move) (ms : List Move) (v : View) :
    undoAll (m :: ms) v = undoAll ms (m.undo v) := rfl

@[simp] theorem touchedBy_nil : touchedBy [] = [] := rfl

theorem mem_touchedBy_cons : l ∈ touchedBy (m :: ms) ↔ l ∈ m.touched ∨ l ∈ touchedBy ms := by
  simp [touchedBy]

theorem undoAll_of_not_mem (hl : l ∉ touchedBy ms) (v : View) : undoAll ms v l = v l := by
  induction ms generalizing v with
  | nil => rfl
  | cons m ms ih =>
    rw [mem_touchedBy_cons, not_or] at hl
    rw [undoAll_cons, ih hl.2, Move.undo_of_not_mem hl.1]

/-- A change at a place that no move touches may be made before or after undoing them. -/
theorem undoAll_update (hg : g ∉ touchedBy ms) (v : View) (x : Option Entry) :
    undoAll ms (Function.update v g x) = Function.update (undoAll ms v) g x := by
  induction ms generalizing v with
  | nil => rfl
  | cons m ms ih =>
    rw [mem_touchedBy_cons, not_or] at hg
    rw [undoAll_cons, undoAll_cons, Move.undo_update hg.1, ih hg.2]

section Exchange

variable {u z : View} {spot b s : Location}

/-- What lay at a spot before something else took its place lies at the backup. -/
theorem exchanged_backup (hne : b ≠ spot) (hsb : s ≠ b)
    (hu : u = Function.update (Function.update v spot none) b (v spot))
    (hz : z = Function.update (Function.update u s none) spot (u s)) : z b = v spot := by
  rw [hz, Function.update_of_ne hne, Function.update_of_ne hsb.symm, hu, Function.update_self]

/-- After something has taken the place of what was put aside, undoing the move leaves what lay
where before, without what took the place. -/
theorem undo_exchanged (hfree : v b = none) (hne : b ≠ spot) (hsb : s ≠ b) (hs : s ≠ spot)
    (hu : u = Function.update (Function.update v spot none) b (v spot))
    (hz : z = Function.update (Function.update u s none) spot (u s)) (target q : Path)
    (bytes : Bytes) :
    Move.undo ⟨target, spot, bytes, some (q, b)⟩ z = Function.update v s none := by
  rw [Move.undo_of_some rfl, exchanged_backup hne hsb hu hz]
  funext l
  by_cases hspot : l = spot
  · rw [hspot, Function.update_self, Function.update_of_ne hs.symm]
  by_cases hb : l = b
  · rw [hb, Function.update_of_ne hne, Function.update_self, Function.update_of_ne hsb.symm, hfree]
  rw [Function.update_of_ne hspot, Function.update_of_ne hb, hz, Function.update_of_ne hspot]
  by_cases hls : l = s
  · rw [hls, Function.update_self, Function.update_self]
  · rw [Function.update_of_ne hls, Function.update_of_ne hls, hu, Function.update_of_ne hb,
      Function.update_of_ne hspot]

end Exchange

end ProtoForge.Output
