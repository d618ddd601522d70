import ProtoForge.Package.Coordinate
import ProtoForge.Path

/-!
# Schema files

A schema file lies somewhere on disk, belongs to an include directory, and
came from the project itself or from a package.
-/
namespace ProtoForge.Sources

/-- Where a schema file came from. -/
inductive Provenance where
  | project
  | package (c : Package.Coordinate)
  | extracted (c : Package.Coordinate)
  deriving DecidableEq, Repr

/-- A schema file that is to be compiled. -/
structure SchemaFile where
  source : Path
  owner : Path
  provenance : Provenance
  deriving DecidableEq, Repr

/-- The file seen from its include directory. -/
def SchemaFile.relativeName (f : SchemaFile) : Path := (f.source.stripPrefix? f.owner).getD f.source

/-- The extension of schema files. -/
def schemaExtension : String := "proto"

/-- Whether a path has the extension of schema files. -/
def isSchemaFile (p : Path) : Bool := p.extension? == some schemaExtension

end ProtoForge.Sources
