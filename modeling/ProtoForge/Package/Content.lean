import ProtoForge.Diagnostic
import ProtoForge.Failure
import ProtoForge.Files.Walk
import ProtoForge.Package.Archive
import ProtoForge.Scan.Filter
import ProtoForge.Sources.SchemaFile

/-!
# Package contents

The schema files of a package that pass a filter, in the order of their paths,
whether the package is a directory or an archive.
-/
namespace ProtoForge.Package

open Files

/-- Where the files of a package lie. -/
inductive Content where
  | directory (root : Path)
  | archive (file : Path)
  deriving DecidableEq, Repr

/-- A package with its files. -/
structure Resolved where
  coordinate : Coordinate
  content : Content
  deriving DecidableEq, Repr

/-- A schema file of a package. -/
inductive SchemaEntry where
  | onDisk (root path : Path)
  | archived (archive relative : Path)
  deriving DecidableEq, Repr

/-- The path of an entry inside its package. -/
def SchemaEntry.relativePath : SchemaEntry → Path
  | onDisk root path => (path.stripPrefix? root).getD path
  | archived _ relative => relative

/-- The schema files of a directory. -/
def walkDirectory (d : Disk) (root : Path) (filter : Scan.Filter) :
    Except Failure (List SchemaEntry) := do
  let top ← (d.canonicalize root).mapError (.sourceDirectory root)
  let entries ← (d.walk top).mapError (.sourceDirectory top)
  let files := entries.filter fun e => e.entry.isFile && Sources.isSchemaFile e.path
  pure ((files.map fun e => SchemaEntry.onDisk top e.path).filter fun e =>
    filter.passes e.relativePath.text)

/-- Whether a name of an archive is that of a schema file. -/
def isSchemaName (name : String) : Bool := name.endsWith ("." ++ Sources.schemaExtension)

/-- The path of an entry of an archive, or the finding that its name is unsafe. -/
def enclosed (package : Coordinate) (name : String) : Except Diagnostic Path :=
  match enclosedPath? name with
  | some p => .ok p
  | none => .error (.unsafeArchiveEntry name package.uniqueName)

/-- The schema files of an archive, and its entries with unsafe names. -/
def walkArchive (d : Disk) (archive : Path) (filter : Scan.Filter) (package : Coordinate) :
    Except Failure (List SchemaEntry × Diagnostics) := do
  let entries ← (openArchive d archive).mapError (.archive archive)
  let names := (entries.map (·.name)).filter isSchemaName
  let found := names.map (enclosed package)
  let paths := (found.filterMap (·.toOption)).filter fun p => filter.passes p.text
  let findings := found.filterMap fun
    | .error finding => some finding
    | .ok _ => none
  pure ((paths.mergeSort Path.le).map (.archived archive), findings)

/-- The schema files of a package. -/
def Resolved.walk (d : Disk) (p : Resolved) (filter : Scan.Filter) :
    Except Failure (List SchemaEntry × Diagnostics) :=
  match p.content with
  | .directory root => do
      let entries ← walkDirectory d root filter
      pure (entries, [])
  | .archive file => walkArchive d file filter p.coordinate

end ProtoForge.Package
