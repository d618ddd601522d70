import ProtoForge.Text.Pieces

/-!
# Coordinates

A package is named by group and artifact, and where needed by version and
classifier.
-/
namespace ProtoForge.Package

/-- The name of a package. -/
structure Coordinate where
  group : String
  artifact : String
  version : Option String := none
  classifier : Option String := none
  deriving DecidableEq, Repr

namespace Coordinate

/-- A text that is not empty. -/
def nonempty? (s : String) : Option String := if s = "" then none else some s

/-- Reads `group:artifact[:version[:classifier]]`; group and artifact are not empty. -/
def parse? (s : String) : Option Coordinate := do
  match Text.pieces ':' s with
  | group :: artifact :: rest =>
      let group ← nonempty? group
      let artifact ← nonempty? artifact
      match rest with
      | [] => pure ⟨group, artifact, none, none⟩
      | [version] => pure ⟨group, artifact, nonempty? version, none⟩
      | [version, classifier] =>
          pure ⟨group, artifact, nonempty? version, nonempty? classifier⟩
      | _ => none
  | _ => none

/-- The id by which policies and filters select a package. -/
def packageId (c : Coordinate) : String := c.group ++ ":" ++ c.artifact

/-- The full name `group:artifact[:version][-classifier]`. -/
def uniqueName (c : Coordinate) : String :=
  c.packageId ++ (c.version.map (":" ++ ·)).getD "" ++ (c.classifier.map ("-" ++ ·)).getD ""

end Coordinate

end ProtoForge.Package
