import ProtoForge.Document.Value

/-!
# Diagnostics

Findings that do not end a run. Each has a code, and the code decides how
serious it is; a list of findings keeps the order in which they were made.
-/
namespace ProtoForge

/-- How serious a finding is. -/
inductive Severity where
  | info
  | warning
  deriving DecidableEq, Repr

/-- The name of a severity. -/
def Severity.text : Severity → String
  | info => "info"
  | warning => "warning"

/-- The kinds of findings. -/
inductive DiagnosticCode where
  | legacyOptionStripped
  | unsafeArchiveEntry
  | rootNotUnderInclude
  | symlinkSkipped
  | shadowedFile
  deriving DecidableEq, Repr

namespace DiagnosticCode

/-- All codes. -/
def all : List DiagnosticCode :=
  [legacyOptionStripped, unsafeArchiveEntry, rootNotUnderInclude, symlinkSkipped, shadowedFile]

/-- The name of a code in documents. -/
def name : DiagnosticCode → String
  | legacyOptionStripped => "LegacyOptionStripped"
  | unsafeArchiveEntry => "UnsafeArchiveEntry"
  | rootNotUnderInclude => "RootNotUnderInclude"
  | symlinkSkipped => "SymlinkSkipped"
  | shadowedFile => "ShadowedFile"

/-- The short form of a code in messages. -/
def short : DiagnosticCode → String
  | legacyOptionStripped => "I001"
  | shadowedFile => "I002"
  | unsafeArchiveEntry => "W001"
  | rootNotUnderInclude => "W002"
  | symlinkSkipped => "W003"

/-- How serious findings of a code are. -/
def severity : DiagnosticCode → Severity
  | legacyOptionStripped | shadowedFile => .info
  | unsafeArchiveEntry | rootNotUnderInclude | symlinkSkipped => .warning

/-- The code of a name. -/
def ofName? (s : String) : Option DiagnosticCode := all.find? (·.name = s)

theorem mem_all (c : DiagnosticCode) : c ∈ all := by cases c <;> decide

theorem ofName?_name (c : DiagnosticCode) : ofName? c.name = some c := by cases c <;> decide

end DiagnosticCode

/-- A finding about a file or entry. -/
structure Diagnostic where
  subject : String
  code : DiagnosticCode
  message : String
  context : List String := []
  deriving DecidableEq, Repr

/-- The findings of a run, in order. -/
abbrev Diagnostics := List Diagnostic

namespace Diagnostic

/-- An option that was taken out of a file of a package. -/
def legacyOptionStripped (file option package : String) : Diagnostic where
  subject := file
  code := .legacyOptionStripped
  message := "Ignoring option " ++ option ++ " in dependency file"
  context := ["package: " ++ package]

/-- An archive entry that was left out because of its name. -/
def unsafeArchiveEntry (entry package : String) : Diagnostic where
  subject := entry
  code := .unsafeArchiveEntry
  message := "Archive entry escapes the extraction directory and was skipped"
  context := ["package: " ++ package]

/-- A root outside every include directory. -/
def rootNotUnderInclude (root stagedAs : String) : Diagnostic where
  subject := root
  code := .rootNotUnderInclude
  message := "Root is not inside any include directory, staged as '" ++ stagedAs ++ "'"

/-- A symbolic link that was left out. -/
def symlinkSkipped (path : String) : Diagnostic where
  subject := path
  code := .symlinkSkipped
  message := "Symbolic link skipped while staging"

/-- A copy hidden by an earlier directory. -/
def shadowed (name hidden : String) : Diagnostic where
  subject := name
  code := .shadowedFile
  message := "File shadowed by an earlier include directory"
  context := ["hidden copy: " ++ hidden]

/-- How serious a finding is. -/
def severity (d : Diagnostic) : Severity := d.code.severity

/-- A finding as a message, one line and one more for each piece of context. -/
def text (d : Diagnostic) : String :=
  "[" ++ d.code.short ++ "] " ++ d.severity.text ++ ": " ++ d.message ++ " (" ++ d.subject ++ ")" ++
    String.join (d.context.map fun c => "\n  - " ++ c)

/-- A finding as a document; context is left out when there is none. -/
def toDocument (d : Diagnostic) : Document.Value :=
  .table ([("subject", .text d.subject), ("code", .text d.code.name),
      ("message", .text d.message)] ++
    if d.context.isEmpty then [] else [("context", .texts d.context)])

end Diagnostic

namespace Diagnostics

/-- All findings as one text. -/
def text (ds : Diagnostics) : String := String.join (ds.map (·.text ++ "\n"))

/-- The number of warnings. -/
def warningCount (ds : Diagnostics) : Nat := ds.countP (·.severity = .warning)

/-- The findings of one code. -/
def withCode (ds : Diagnostics) (code : DiagnosticCode) : Diagnostics :=
  ds.filter (·.code = code)

/-- All findings as a document. -/
def toDocument (ds : Diagnostics) : Document.Value :=
  .table [("items", .array (ds.map Diagnostic.toDocument))]

end Diagnostics

end ProtoForge
