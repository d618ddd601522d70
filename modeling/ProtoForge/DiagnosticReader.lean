import ProtoForge.Diagnostic
import ProtoForge.Document.Reading

/-!
# Reading diagnostics

Findings from documents. Reading what `Diagnostics.toDocument` writes gives the
findings back.
-/
namespace ProtoForge

open Document

/-- The code of a name. -/
def DiagnosticCode.ofName (s : String) : Reading DiagnosticCode :=
  match ofName? s with
  | some c => .ok c
  | none => .error (.unknownVariant s (all.map name))

/-- A code, given by its name or as a table with its name as the only key. -/
def DiagnosticCode.read : Tree → Reading DiagnosticCode
  | .scalar _ (.text s) => ofName s
  | .table _ [(k, .scalar _ .null)] => ofName k
  | .table _ [(k, v)] => do
      let _ ← ofName k
      Dialect.strict.mismatch v "unit"
  | .table _ _ => .error (.range "map" "map with a single key")
  | t => Dialect.strict.mismatch t "string or map"

namespace Diagnostic

/-- A text. -/
def readText (t : Tree) : Reading String := Dialect.strict.text "a string" t

/-- The fields of a finding. -/
def shape : RecordShape Diagnostic where
  name := "DiagnosticItem"
  slots := [
    { name := "subject", required := true,
      read := fun t d => do pure { d with subject := ← readText t } },
    { name := "code", required := true,
      read := fun t d => do pure { d with code := ← DiagnosticCode.read t } },
    { name := "message", required := true,
      read := fun t d => do pure { d with message := ← readText t } },
    { name := "context",
      read := fun t d => do pure { d with context := ← Dialect.strict.list readText t } }]

/-- A finding. -/
def read (t : Tree) : Reading Diagnostic :=
  shape.read .strict ⟨"", .legacyOptionStripped, "", []⟩ t

end Diagnostic

namespace Diagnostics

/-- The fields of a list of findings. -/
def shape : RecordShape Diagnostics where
  name := "Diagnostics"
  slots := [
    { name := "items", required := true,
      read := fun t _ => Dialect.strict.list Diagnostic.read t }]

/-- The findings of a document. -/
def ofValue (v : Value) : Reading Diagnostics :=
  shape.read .strict [] (Tree.ofValue Scalar.int none v)

end Diagnostics

end ProtoForge
