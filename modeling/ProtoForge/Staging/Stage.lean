import ProtoForge.Diagnostic
import ProtoForge.Files.Walk
import ProtoForge.Sources.IncludeDirectories
import ProtoForge.Sources.SchemaFile
import ProtoForge.Staging.View

/-!
# Staging

A view is laid out directory by directory: the first copy of a name is kept,
later ones that differ are reported, and links are left out. Roots are named
by the include directory that contains them; one outside all of them is added
under its file name.
-/
namespace ProtoForge.Staging

open Files Sources

/-- A view, the names of the roots in it, and what was found on the way. -/
structure Staged where
  view : View := {}
  rootNames : List String := []
  diagnostics : Diagnostics := []
  deriving DecidableEq, Repr

namespace Staged

/-- Adds a finding. -/
def report (s : Staged) (d : Diagnostic) : Staged := { s with diagnostics := s.diagnostics ++ [d] }

/-- The name of a path below a directory. -/
def nameBelow (dir p : Path) : String := canonicalName ((p.stripPrefix? dir).getD p)

/-- Adds one entry of a walk through a directory. -/
def addEntry (dir : Path) (s : Staged) (e : WalkEntry) : Staged :=
  let name := nameBelow dir e.path
  match e.entry with
  | .link _ => s.report (.symlinkSkipped e.path.text)
  | .directory mode => if name = "" then s else { s with view := s.view.addDirectory name (some mode) }
  | .file content mode =>
      if name = "" then s
      else
        match s.view.get? name with
        | some existing =>
            if existing.bytes = content.toBytes then s
            else s.report (.shadowed name e.path.text)
        | none => { s with view := s.view.addFile name ⟨content.toBytes, some mode⟩ }

/-- Lays a directory under what is there. -/
def overlay (d : Disk) (s : Staged) (dir : Path) : Except Failure Staged := do
  let entries ← (d.walk dir).mapError (.staging dir)
  pure (entries.foldl (addEntry dir) s)

/-- Adds the name of a root once. -/
def addRootName (s : Staged) (name : String) : Staged :=
  if s.rootNames.contains name then s else { s with rootNames := s.rootNames ++ [name] }

/-- Adds a root outside every include directory under its file name. -/
def addStray (d : Disk) (s : Staged) (source : Path) : Except Failure Staged := do
  let name := source.fileName?.getD ""
  let content ← (d.read source).mapError (.staging source)
  let s :=
    match s.view.get? name with
    | some existing =>
        if existing.bytes = content.toBytes then s else s.report (.shadowed name source.text)
    | none => { s with view := s.view.insert name content.toBytes }
  pure ((s.report (.rootNotUnderInclude source.text name)).addRootName name)

/-- Adds a root. -/
def addRoot (d : Disk) (includes : IncludeDirectories) (s : Staged) (root : SchemaFile) :
    Except Failure Staged :=
  match includes.containing? root.source with
  | some dir => .ok (s.addRootName (nameBelow dir root.source))
  | none => s.addStray d root.source

end Staged

/-- The view of include directories, import directories and roots, in this order. -/
def stage (d : Disk) (includes imports : IncludeDirectories) (roots : List SchemaFile) :
    Except Failure Staged := do
  let s ← (includes.dirs ++ imports.dirs).foldlM (Staged.overlay d) {}
  roots.foldlM (Staged.addRoot d includes) s

end ProtoForge.Staging
