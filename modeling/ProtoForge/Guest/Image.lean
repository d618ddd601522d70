import ProtoForge.Failure
import ProtoForge.Guest.Typing

/-!
# Guest images

A guest program with its name. Images that were loaded from disk are kept, so
that a path is read only once.
-/
namespace ProtoForge.Guest

open Files

/-- A guest program. -/
structure Image where
  name : String
  module : Module

/-- The images loaded so far, by absolute path. -/
abbrev ImageCache := List (Path × Image)

namespace Image

/-- The image of a module in its binary form. -/
def compile (name : String) (path : Path) (b : Bytes) : Except Failure Image :=
  match Module.compile? b with
  | some m => .ok ⟨name, m⟩
  | none => .error (.guestImage path none)

/-- The image of a module that is not on disk. -/
def ofBytes (name : String) (b : Bytes) : Except Failure Image := compile name ⟨name⟩ b

/-- The image at a path, named by its file. -/
def read (d : Disk) (path : Path) : Except Failure Image := do
  let content ← (d.read path).mapError fun f => .guestImage path (some f)
  compile (path.fileStem?.getD path.text) path content.toBytes

/-- The kept image of a path. -/
def cached? (cache : ImageCache) (path : Path) : Option Image :=
  (cache.find? fun e => e.1.same path).map (·.2)

/-- The image at a path, and the images kept afterwards. -/
def load (d : Disk) (cache : ImageCache) (path : Path) : Except Failure (Image × ImageCache) :=
  let key := d.absolutize path
  match cached? cache key with
  | some image => .ok (image, cache)
  | none => do
      let image ← read d key
      pure (image, (key, image) :: cache)

end Image

end ProtoForge.Guest
