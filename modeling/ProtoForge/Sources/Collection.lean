import ProtoForge.Digest.Framed
import ProtoForge.Package.Content
import ProtoForge.Settings.Config
import ProtoForge.Sources.IncludeDirectories
import ProtoForge.Sources.Sanitizer

/-!
# Collection

The schema files of a run come from the project's source directory and from
packages. Files of package directories are used where they are; files of
archives are extracted below the work directory, those that are compiled
without the options that the configuration strips.
-/
namespace ProtoForge.Sources

open Files

/-- The schema files of a run and the directories that their imports are looked up in. -/
structure Collected where
  roots : List SchemaFile := []
  includes : IncludeDirectories := .empty
  imports : IncludeDirectories := .empty
  diagnostics : Diagnostics := []
  deriving DecidableEq, Repr

/-- What a package is scanned for. -/
inductive ScanKind where
  | dependency
  | importOnly
  deriving DecidableEq, Repr

/-- The directory below the work directory for the extracted files of a scan. -/
def ScanKind.directory : ScanKind → String
  | dependency => "protos-from-dependencies"
  | importOnly => "proto-imports"

namespace Collected

/-- Adds findings. -/
def report (c : Collected) (ds : Diagnostics) : Collected :=
  { c with diagnostics := c.diagnostics ++ ds }

/-- Adds a schema file of a package. -/
def add (c : Collected) (kind : ScanKind) (f : SchemaFile) : Collected :=
  match kind with
  | .dependency => { c with includes := c.includes.insert f.owner, roots := c.roots ++ [f] }
  | .importOnly => { c with imports := c.imports.insert f.owner }

end Collected

/-- The project's own schema files; a missing source directory holds none. -/
def localFiles (d : Disk) (dir : Path) : Except Failure (List SchemaFile) :=
  if d.reaches dir then do
    let top ← (d.canonicalize dir).mapError (.sourceDirectory dir)
    let entries ← (d.walk top).mapError (.sourceDirectory top)
    let files := entries.filter fun e => e.entry.isFile && isSchemaFile e.path
    pure (files.map fun e => ⟨e.path, top, .project⟩)
  else .ok []

/-- The collection of the project's own files. -/
def collectLocal (d : Disk) (dir : Path) : Except Failure Collected := do
  let files ← localFiles d dir
  pure { roots := files, includes := IncludeDirectories.empty.insertAll (files.map (·.owner)) }

/-- The bytes under which an entry is extracted, and the options that were stripped. -/
def extractedBytes (options : List String) (kind : ScanKind) (b : Bytes) : Bytes × List String :=
  match kind with
  | .importOnly => (b, [])
  | .dependency =>
      let s := sanitize options (Bytes.toTextLossy b)
      (if s.changed then Bytes.ofText s.content else b, s.stripped)

/-- The directory for the extracted files of a package. -/
def extractionDirectory (workDir : Path) (kind : ScanKind) (package : Package.Coordinate) : Path :=
  (workDir.join ⟨kind.directory⟩).join ⟨Digest.ofText package.uniqueName⟩

/-- Extracts an entry of an archive; where it lies now, and the stripped options. -/
def extract (options : List String) (kind : ScanKind) (package : Package.Coordinate)
    (dir archive relative : Path) : RunAction (SchemaFile × Diagnostics) := do
  let target := dir.join relative
  let failed := Failure.extraction package.uniqueName relative.text target
  let b ← (FileAction.inspect fun d => Package.readEntry d archive relative).orFail failed
  let (bytes, stripped) := extractedBytes options kind b
  if let some parent := target.parent? then (makeDirectories parent).orFail failed
  (writeFile target bytes).orFail failed
  let findings := stripped.map fun o =>
    Diagnostic.legacyOptionStripped relative.text o package.uniqueName
  pure (⟨target, dir, .extracted package⟩, findings)

/-- Takes one schema file of a package. -/
def collectEntry (c : Settings.Config) (kind : ScanKind) (package : Package.Coordinate)
    (dir : Path) (found : Collected) (e : Package.SchemaEntry) : RunAction Collected :=
  match e with
  | .onDisk root path =>
      pure (found.add kind ⟨path, path.parent?.getD root, .package package⟩)
  | .archived archive relative => do
      let (file, findings) ← extract c.scan.stripOptions kind package dir archive relative
      pure ((found.report findings).add kind file)

/-- The filter of a package: only dependencies are filtered. -/
def filterFor (c : Settings.ScanConfig) (kind : ScanKind) (packageId : String) :
    Except Failure Scan.Filter :=
  match kind with
  | .importOnly => .ok .allowAll
  | .dependency =>
      (Scan.Filter.ofGlobs (c.includesFor packageId) (c.excludesFor packageId)).mapError
        fun f => .invalidConfig (.glob f.message)

/-- Takes the schema files of a package. -/
def collectPackage (c : Settings.Config) (kind : ScanKind) (found : Collected)
    (p : Package.Resolved) : RunAction Collected := do
  let filter ← ExceptT.mk (pure (filterFor c.scan kind p.coordinate.packageId))
  let (entries, findings) ← RunAction.inspect fun d => p.walk d filter
  let dir := extractionDirectory (c.workDir (← get)) kind p.coordinate
  entries.foldlM (collectEntry c kind p.coordinate dir) (found.report findings)

/-- The packages that a policy selects. -/
def selected (policy : Scan.Policy) (packages : List Package.Resolved) : List Package.Resolved :=
  packages.filter fun p => policy.selects p.coordinate.packageId

/-- Collects the schema files of a run. A test run does not scan dependencies. -/
def collect (c : Settings.Config) (packages : List Package.Resolved) : RunAction Collected := do
  let own ← RunAction.inspect fun d => collectLocal d (c.sourceDir d)
  let dependencies := if c.test then [] else selected c.scan.dependencies packages
  let found ← dependencies.foldlM (collectPackage c .dependency) own
  (selected c.scan.imports packages).foldlM (collectPackage c .importOnly) found

end ProtoForge.Sources
