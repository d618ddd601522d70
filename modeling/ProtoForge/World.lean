import ProtoForge.Guest.Image

/-!
# The world of a run

A run changes the disk and the images that are kept; generators and compilers
that are not guests may have a state of their own beside these.
-/
namespace ProtoForge

/-- The state of a run. -/
structure World (ε : Type) where
  disk : Files.Disk
  images : Guest.ImageCache
  extra : ε

/-- A step of a run. -/
abbrev WorldAction (ε : Type) := ExceptT Failure (StateM (World ε))

namespace WorldAction

variable {ε α : Type}

/-- A step that concerns the disk alone. -/
def onDisk (a : RunAction α) : WorldAction ε α := do
  let w ← get
  let (result, disk) := a.run.run w.disk
  set { w with disk := disk }
  match result with
  | .ok x => pure x
  | .error e => throw e

/-- A step that leaves disk and images alone. -/
def onExtra (a : ExceptT Failure (StateM ε) α) : WorldAction ε α := do
  let w ← get
  let (result, extra) := a.run.run w.extra
  set { w with extra := extra }
  match result with
  | .ok x => pure x
  | .error e => throw e

/-- The image at a path. -/
def loadImage (path : Path) : WorldAction ε Guest.Image := do
  let w ← get
  match Guest.Image.load w.disk w.images path with
  | .ok (image, images) =>
      set { w with images := images }
      pure image
  | .error e => throw e

end WorldAction

end ProtoForge
