import ProtoForge.Files.Disk

/-!
# Walks

A walk lists a directory and all below it, every directory before what it
holds and names in order. It does not follow links, except that a link may be
its starting point.
-/
namespace ProtoForge.Files

/-- An entry met on a walk. -/
structure WalkEntry where
  path : Path
  entry : Entry
  deriving DecidableEq, Repr

namespace Disk

/-- The entries below a location, with paths that start with a given one. -/
def walkBelow (d : Disk) (root : Path) (l : Location) : List WalkEntry :=
  (d.below l).map fun e => ⟨e.1.foldl (fun p name => p.join ⟨name⟩) root, e.2⟩

/-- A fault met at a path of a walk. -/
def walkFault (p : Path) (f : Fault) : Fault := .walking p.text f

/-- The entries of a walk, the starting point first. -/
def walk (d : Disk) (root : Path) : Except Fault (List WalkEntry) := do
  let l ← (d.locate root false).mapError (walkFault root)
  match d.get? l with
  | none => throw (walkFault root .missing)
  | some (.link target) =>
      let (inside, e) ← (d.status root).mapError (walkFault root)
      let more := if e.isDirectory then d.walkBelow root inside else []
      pure (⟨root, .link target⟩ :: more)
  | some e => pure (⟨root, e⟩ :: d.walkBelow root l)

end Disk

end ProtoForge.Files
