import ProtoForge.Path

/-!
# Include directories

An ordered list of directories without repetitions. Directories compare by
their components and keep the text under which they came first; earlier ones
shadow later ones.
-/
namespace ProtoForge.Sources

/-- Directories in the order of their first insertion. -/
structure IncludeDirectories where
  dirs : List Path
  deriving DecidableEq, Repr

namespace IncludeDirectories

/-- No directories. -/
def empty : IncludeDirectories := ⟨[]⟩

/-- Whether a directory is in the list. -/
def contains (d : IncludeDirectories) (dir : Path) : Bool := d.dirs.any (·.same dir)

/-- Adds a directory at the end unless it is in the list. -/
def insert (d : IncludeDirectories) (dir : Path) : IncludeDirectories :=
  if d.contains dir then d else ⟨d.dirs ++ [dir]⟩

/-- Adds several directories. -/
def insertAll (d : IncludeDirectories) (dirs : List Path) : IncludeDirectories :=
  dirs.foldl insert d

/-- The first directory that contains a path. -/
def containing? (d : IncludeDirectories) (p : Path) : Option Path := d.dirs.find? p.startsWith

theorem contains_insert (d : IncludeDirectories) (dir : Path) : (d.insert dir).contains dir = true := by
  unfold insert
  split
  · assumption
  · simp [contains, Path.same]

end IncludeDirectories

end ProtoForge.Sources
