import ProtoForge.Proofs.Files.Rebuilding
import ProtoForge.Proofs.Sources.Extraction

/-!
# Collecting again

Collecting goes through the project's own files and then through one scan after
the other, and what is extracted stays on disk. If everything that was looked at
is in the end as it was in its turn, collecting once more finds the same files
and leaves the same disk.
-/
namespace ProtoForge

open Files Disk

namespace Package

variable {d d' e : Disk} {f : Files.Content → Files.Content} {r : Resolved} {filter : Scan.Filter}
  {archive relative file root : Path} {entries : List SchemaEntry} {findings : Diagnostics}
  {listed : List ArchiveEntry} {selection : List SchemaEntry × Diagnostics} {b : Bytes}

/-- Which of the entries are schema files does not depend on what they hold. -/
theorem schemaFiles_congr {α : Type} (g : Path → α) {met met' : List WalkEntry}
    (h : met.map (WalkEntry.mapContent f) = met'.map (WalkEntry.mapContent f)) :
    (met.filter fun e => e.entry.isFile && Sources.isSchemaFile e.path).map (fun e => g e.path) =
      (met'.filter fun e => e.entry.isFile && Sources.isSchemaFile e.path).map
        fun e => g e.path := by
  have hfiles : ∀ met : List WalkEntry,
      (met.filter fun e => e.entry.isFile && Sources.isSchemaFile e.path).map (fun e => g e.path) =
        ((met.map (WalkEntry.mapContent f)).filter fun e =>
          e.entry.isFile && Sources.isSchemaFile e.path).map fun e => g e.path := by
    intro met
    rw [List.filter_map, List.map_map]
    simp [Function.comp_def, WalkEntry.mapContent]
  rw [hfiles met, h, ← hfiles met']

theorem walkDirectory_eq (h : d.Alike f e) (hd : d.IsProper) (he : e.IsProper) (root : Path)
    (filter : Scan.Filter) : walkDirectory e root filter = walkDirectory d root filter := by
  rw [walkDirectory, walkDirectory, h.canonicalize_eq]
  cases d.canonicalize root with
  | error fault => rfl
  | ok top =>
    simp only [Except.mapError, Disk.ok_bind]
    rcases Disk.map_eq_map_cases (h.map_walk_eq hd he top) with
      ⟨fault, hs, hs'⟩ | ⟨met, met', hs, hs', hsame⟩
    · rw [hs, hs']
    · simp only [hs, hs', Disk.ok_bind]
      rw [schemaFiles_congr (SchemaEntry.onDisk top) hsame]

/-- Plain bytes have no entries. -/
theorem entriesOf_bytes (h : entriesOf (.bytes b) = .ok listed) : listed = [] := by
  rw [entriesOf] at h
  split at h
  · cases h
  · split_ifs at h
    exact (Except.ok.inj h).symm

/-- What a walk through a directory gives lies on the disk itself. -/
theorem onDisk_of_walkDirectory (h : walkDirectory d root filter = .ok entries) :
    ∀ x ∈ entries, ∃ top path, x = .onDisk top path := by
  obtain ⟨top, -, hwalk⟩ := Disk.bind_eq_ok.mp h
  obtain ⟨met, -, hmet⟩ := Disk.bind_eq_ok.mp hwalk
  obtain rfl := Except.ok.inj hmet
  intro x hx
  obtain ⟨w, -, rfl⟩ := List.mem_map.mp (List.mem_filter.mp hx).1
  exact ⟨top, w.path, rfl⟩

/-- An archive that gives an entry is intact. -/
theorem archive_of_walk (h : r.walk e filter = .ok (entries, findings))
    (hentry : .archived archive relative ∈ entries) :
    ∃ listed, e.read archive = .ok (.archive listed) := by
  rcases Resolved.walk_eq_ok_cases h with ⟨root, -, hwalk⟩ | ⟨file, -, hwalk⟩
  · obtain ⟨top, path, hx⟩ := onDisk_of_walkDirectory hwalk _ hentry
    cases hx
  · obtain ⟨listed, hlisted, -, hentries⟩ := walkArchive_eq_ok hwalk
    obtain ⟨x, hx, heq, -⟩ := (hentries _).mp hentry
    obtain ⟨rfl, -⟩ := SchemaEntry.archived.inj heq
    obtain ⟨content, hread, hcontents⟩ := Disk.bind_eq_ok.mp hlisted
    cases content with
    | archive listed => exact ⟨listed, hread⟩
    | bytes b =>
      rw [entriesOf_bytes hcontents] at hx
      cases hx

/-- A scan selects the same while things are collected once more. -/
theorem Resolved.walk_midway (h : Midway e d d') (he : e.IsProper)
    (hwalk : r.walk d filter = .ok selection) (hwalk' : r.walk e filter = .ok selection) :
    r.walk d' filter = .ok selection := by
  rw [Resolved.walk] at hwalk hwalk' ⊢
  cases hcontent : r.content with
  | directory root =>
    rw [hcontent] at hwalk'
    simp only at hwalk' ⊢
    rwa [walkDirectory_eq h.alike he h.proper]
  | archive file =>
    rw [hcontent] at hwalk hwalk'
    simp only at hwalk hwalk' ⊢
    have hcongr : ∀ b : Disk, d'.read file = b.read file →
        walkArchive d' file filter r.coordinate = walkArchive b file filter r.coordinate := by
      intro b hb
      rw [walkArchive, walkArchive, openArchive, openArchive, hb]
    obtain ⟨entries, findings⟩ := selection
    obtain ⟨listed, hlisted, -⟩ := walkArchive_eq_ok hwalk
    obtain ⟨content, hread, -⟩ := Disk.bind_eq_ok.mp hlisted
    obtain ⟨content', hread', rfl | hread''⟩ := h.read hread
    · rw [hcongr d (hread'.trans hread.symm), hwalk]
    · rw [hcongr e (hread'.trans hread''.symm), hwalk']

end Package

namespace Sources

variable {d d' d₁ d₂ e : Disk} {c : Settings.Config} {kind : ScanKind} {found found' : Collected}
  {p : Package.Resolved} {package : Package.Coordinate} {options : List String}
  {dir archive relative parent : Path} {listed : List ArchiveEntry} {b : Bytes} {packages : List Package.Resolved}
  {todo : List (ScanKind × Package.Resolved)}

/-- Extracting an entry of an archive that is still there in the end. -/
theorem rebuilds_extract (he : e.read archive = .ok (.archive listed)) :
    Rebuilds e (extract options kind package dir archive relative) := by
  have hread : ∀ d d' b, Midway e d d' → Package.readEntry d archive relative = .ok b →
      Package.readEntry d' archive relative = .ok b := by
    intro d d' b h hb
    obtain ⟨found, hfound, -⟩ := Disk.bind_eq_ok.mp hb
    obtain ⟨content, hcontent, -⟩ := Disk.bind_eq_ok.mp hfound
    obtain rfl := h.ahead.read_archive hcontent he
    obtain ⟨content', hcontent', hsame⟩ := h.read hcontent
    have heq : d'.read archive = d.read archive := by
      rcases hsame with rfl | hend
      · rw [hcontent', hcontent]
      · rw [hcontent', hcontent, ← hend, he]
    rw [← hb, Package.readEntry, Package.readEntry, Package.openArchive, Package.openArchive, heq]
  have hparents : Rebuilds e (makeDirectoriesAbove (dir.join relative)) := by
    rw [makeDirectoriesAbove]
    cases (dir.join relative).parent? with
    | none => exact .pure _
    | some parent => exact .makeDirectories parent
  rw [extract_eq]
  refine .bind (.orFail (.inspect hread) _) fun b => .bind (.orFail hparents _) fun _ => ?_
  exact .bind (.orFail (.writeFile _ _) _) fun _ => .pure _

theorem rebuilds_collectEntry {x : Package.SchemaEntry}
    (hx : ∀ archive relative, x = .archived archive relative →
      ∃ listed, e.read archive = .ok (.archive listed)) :
    Rebuilds e (collectEntry c kind package dir found x) := by
  cases x with
  | onDisk root path => exact .pure _
  | archived archive relative =>
    obtain ⟨listed, hlisted⟩ := hx archive relative rfl
    exact .bind (rebuilds_extract hlisted) fun _ => .pure _

/-- What is selected in a scan of a package. -/
def selection (c : Settings.Config) (kind : ScanKind) (p : Package.Resolved) (d : Disk) :
    Except Failure (List Package.SchemaEntry × Diagnostics) := do
  let filter ← filterFor c.scan kind p.coordinate.packageId
  p.walk d filter

theorem builtUp_collectPackage (c : Settings.Config) (kind : ScanKind) (found : Collected)
    (p : Package.Resolved) : Respects BuiltUp (collectPackage c kind found p) := by
  intro d
  rcases collectPackage_built (Prod.mk.eta (p := outcome (collectPackage c kind found p) d)).symm with
    heq | ⟨_, _, _, -, -, hbuilt⟩
  · rw [heq]
    exact .refl d
  · exact hbuilt.mono (fun _ _ => trivial) fun _ _ => trivial

/-- Collecting a package again. -/
theorem collectPackage_again (he : e.IsProper) (h : Midway e d d')
    (hout : outcome (collectPackage c kind found p) d = (.ok found', d₁)) (hahead : d₁.BuiltUp e)
    (hsame : selection c kind p e = selection c kind p d) :
    ∃ d₁', outcome (collectPackage c kind found p) d' = (.ok found', d₁') ∧ Midway e d₁ d₁' := by
  have hdir : directoryFor c kind p d' = directoryFor c kind p d := by
    rw [directoryFor, directoryFor, Settings.Config.workDir, Settings.Config.workDir, absolutize,
      absolutize, h.grown.workingDirectory]
  rw [outcome_collectPackage] at hout ⊢
  rw [selection, selection] at hsame
  cases hfilter : filterFor c.scan kind p.coordinate.packageId with
  | error f =>
    rw [hfilter] at hout
    cases hout
  | ok filter =>
    rw [hfilter] at hout hsame
    simp only [ok_bind] at hout hsame ⊢
    cases hwalk : p.walk d filter with
    | error f =>
      rw [hwalk] at hout
      cases hout
    | ok selected =>
      obtain ⟨entries, findings⟩ := selected
      rw [hwalk] at hout hsame
      rw [Package.Resolved.walk_midway h he hwalk hsame]
      dsimp only at hout ⊢
      rw [hdir]
      have hrebuilds : Rebuilds e (entries.foldlM
          (collectEntry c kind p.coordinate (directoryFor c kind p d)) (found.report findings)) := by
        apply Rebuilds.foldlM
        intro x hx found
        apply rebuilds_collectEntry
        rintro archive relative rfl
        exact Package.archive_of_walk hsame hx
      exact hrebuilds.again h hout hahead

/-- The scans of a run in their order. A test run does not scan dependencies. -/
def scans (c : Settings.Config) (packages : List Package.Resolved) :
    List (ScanKind × Package.Resolved) :=
  (if c.test then [] else selected c.scan.dependencies packages).map (ScanKind.dependency, ·) ++
    (selected c.scan.imports packages).map (ScanKind.importOnly, ·)

/-- Takes the schema files of one scan after the other. -/
def collectScans (c : Settings.Config) (found : Collected)
    (todo : List (ScanKind × Package.Resolved)) : RunAction Collected :=
  todo.foldlM (fun found s => collectPackage c s.1 found s.2) found

/-- A run collects the project's own files and then goes through its scans. -/
theorem outcome_collect (c : Settings.Config) (packages : List Package.Resolved) (d : Disk) :
    outcome (collect c packages) d =
      match collectLocal d (c.sourceDir d) with
      | .ok own => outcome (collectScans c own (scans c packages)) d
      | .error f => (.error f, d) := by
  rw [collect, outcome_bind, outcome_runInspect]
  cases collectLocal d (c.sourceDir d) with
  | error f => rfl
  | ok own =>
    dsimp only
    simp only [collectScans, scans, List.foldlM_append, List.foldlM_map]

/-- What a collection has looked at is in the end as it was in its turn: the schema files of the
project, and what each scan selected. -/
structure Undisturbed (c : Settings.Config) (packages : List Package.Resolved) (d e : Disk) :
    Prop where
  own : localFiles e (c.sourceDir d) = localFiles d (c.sourceDir d)
  scans : ∀ own before kind p after found d',
    collectLocal d (c.sourceDir d) = .ok own → scans c packages = before ++ (kind, p) :: after →
      outcome (collectScans c own before) d = (.ok found, d') →
        selection c kind p e = selection c kind p d'

theorem builtUp_collectScans (c : Settings.Config) (found : Collected)
    (todo : List (ScanKind × Package.Resolved)) : Respects BuiltUp (collectScans c found todo) :=
  .foldlM todo (fun s _ found => builtUp_collectPackage c s.1 found s.2) found

theorem collectScans_again (he : e.IsProper) (h : Midway e d d')
    (hout : outcome (collectScans c found todo) d = (.ok found', e))
    (hsame : ∀ before kind p after found₁ d₁, todo = before ++ (kind, p) :: after →
      outcome (collectScans c found before) d = (.ok found₁, d₁) →
        selection c kind p e = selection c kind p d₁) :
    ∃ e', outcome (collectScans c found todo) d' = (.ok found', e') ∧ Midway e e e' := by
  induction todo generalizing d d' found with
  | nil =>
    obtain ⟨hresult, rfl⟩ := Prod.mk.inj hout
    obtain rfl := Except.ok.inj hresult
    exact ⟨d', rfl, h⟩
  | cons s todo ih =>
    obtain ⟨kind, p⟩ := s
    rw [collectScans, List.foldlM_cons] at hout ⊢
    obtain ⟨found₁, d₁, hfirst, hrest⟩ := outcome_bind_eq_ok.mp hout
    have hahead : d₁.BuiltUp e := (builtUp_collectScans c found₁ todo).of_outcome hrest
    obtain ⟨d₁', hfirst', h₁⟩ := collectPackage_again he h hfirst hahead
      (hsame [] kind p todo found d rfl rfl)
    obtain ⟨e', hrest', hend⟩ := ih h₁ hrest fun before kind' p' after found₂ d₂ htodo hbefore => by
      refine hsame ((kind, p) :: before) kind' p' after found₂ d₂ (by rw [htodo]; rfl) ?_
      rw [collectScans, List.foldlM_cons]
      exact outcome_bind_eq_ok.mpr ⟨found₁, d₁, hfirst, hbefore⟩
    exact ⟨e', outcome_bind_eq_ok.mpr ⟨found₁, d₁', hfirst', hrest'⟩, hend⟩

/-- A collection that is undisturbed finds the same once more and leaves everything as it was. -/
theorem collect_again (hd : d.IsProper) (h : outcome (collect c packages) d = (.ok found, e))
    (hsame : Undisturbed c packages d e) :
    ∃ e', outcome (collect c packages) e = (.ok found, e') ∧ e.SameTree e' ∧ e.IsProper ∧
      e'.IsProper := by
  rw [outcome_collect] at h
  cases hown : collectLocal d (c.sourceDir d) with
  | error f =>
    rw [hown] at h
    cases h
  | ok own =>
    rw [hown] at h
    dsimp only at h
    have hbuilt := (builtUp_collectScans c own (scans c packages)).of_outcome h
    have he := hbuilt.grown.proper hd
    have hsource : c.sourceDir e = c.sourceDir d := by
      rw [Settings.Config.sourceDir, Settings.Config.sourceDir, absolutize, absolutize,
        hbuilt.grown.workingDirectory]
    have hown' : collectLocal e (c.sourceDir e) = .ok own := by
      rw [← hown, hsource, collectLocal, collectLocal, hsame.own]
    obtain ⟨e', hout, hend⟩ := collectScans_again he (.start hbuilt he) h
      fun before kind p after found₁ d₁ => hsame.scans own before kind p after found₁ d₁ hown
    refine ⟨e', ?_, hend.sameTree, he, hend.proper⟩
    rw [outcome_collect, hown']
    exact hout

/-- An entry is extracted where its directory can be made and its file written. -/
theorem extract_ok (hread : Package.readEntry d archive relative = .ok b)
    (hparent : (dir.join relative).parent? = some parent)
    (hmake : outcome (makeDirectories parent) d = (.ok (), d₁))
    (hwrite : outcome (writeFile (dir.join relative) (extractedBytes options kind b).1) d₁ =
      (.ok (), d₂)) :
    outcome (extract options kind package dir archive relative) d =
      (.ok (⟨dir.join relative, dir, .extracted package⟩, (extractedBytes options kind b).2.map
        (.legacyOptionStripped relative.text · package.uniqueName)), d₂) := by
  refine extract_eq_ok.mpr ⟨b, d₁, hread, ?_, hwrite, rfl, rfl⟩
  rw [makeDirectoriesAbove, hparent]
  exact hmake

end Sources

end ProtoForge
