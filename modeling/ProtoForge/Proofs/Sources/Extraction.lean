import ProtoForge.Proofs.Files.Building
import ProtoForge.Proofs.Package.Confinement
import ProtoForge.Proofs.Sources.Gathered

/-!
# Extraction stays inside

Collecting a package makes directories above the places of its selected entries
and writes files there, and does nothing else. The names of these entries are
safe, so all this happens below the package's own directory, apart from making
this directory and its parents; an entry with an unsafe name is reported and
not written.
-/
namespace ProtoForge.Sources

open Files Disk

variable {d d' : Disk} {c : Settings.Config} {kind : ScanKind} {found found' : Collected}
  {p : Package.Resolved} {package : Package.Coordinate} {options : List String}
  {dir archive relative q : Path} {l : Location} {entries : List Package.SchemaEntry}
  {findings : Diagnostics} {filter : Scan.Filter} {made written : Path → Prop} {file : SchemaFile}
  {result : Except Failure Collected}

/-- The directory for what is extracted while a package is collected. -/
def directoryFor (c : Settings.Config) (kind : ScanKind) (p : Package.Resolved) (d : Disk) : Path :=
  extractionDirectory (c.workDir d) kind p.coordinate

/-- The paths that are written for archived entries. -/
def IsTarget (dir : Path) (entries : List Package.SchemaEntry) (q : Path) : Prop :=
  ∃ archive relative, .archived archive relative ∈ entries ∧ q = dir.join relative

/-- The paths that have the first components of a written one. -/
def IsAboveTarget (dir : Path) (entries : List Package.SchemaEntry) (q : Path) : Prop :=
  ∃ p, IsTarget dir entries p ∧ q.components <+: p.components

/-- Collecting a package selects its entries and takes them one after the other. -/
theorem outcome_collectPackage (c : Settings.Config) (kind : ScanKind) (found : Collected)
    (p : Package.Resolved) (d : Disk) :
    outcome (collectPackage c kind found p) d =
      match filterFor c.scan kind p.coordinate.packageId with
      | .error e => (.error e, d)
      | .ok filter =>
          match p.walk d filter with
          | .error e => (.error e, d)
          | .ok (entries, findings) =>
              outcome (entries.foldlM (collectEntry c kind p.coordinate (directoryFor c kind p d))
                (found.report findings)) d := by
  have hfilter : outcome (ExceptT.mk (pure (filterFor c.scan kind p.coordinate.packageId)) :
      RunAction Scan.Filter) d = (filterFor c.scan kind p.coordinate.packageId, d) := rfl
  rw [collectPackage, outcome_bind, hfilter]
  cases filterFor c.scan kind p.coordinate.packageId with
  | error e => rfl
  | ok filter =>
    dsimp only
    rw [outcome_bind, outcome_runInspect]
    cases p.walk d filter with
    | error e => rfl
    | ok selected =>
      obtain ⟨entries, findings⟩ := selected
      dsimp only
      rw [outcome_bind, outcome_get]
      rfl

/-- Extracting an entry makes directories above its place and writes there. -/
theorem built_extract
    (hmade : ∀ q, q.components <+: (dir.join relative).components → made q)
    (hwritten : written (dir.join relative)) :
    Respects (Built made written) (extract options kind package dir archive relative) := by
  have hparents : Respects (Built made written) (makeDirectoriesAbove (dir.join relative)) := by
    rw [makeDirectoriesAbove]
    cases hparent : (dir.join relative).parent? with
    | none => exact .pure _
    | some parent =>
      refine built_makeDirectories fun q hq => hmade q ?_
      refine (Path.isPrefix_of_mem_ancestors hq).trans ?_
      rw [(Path.components_parent hparent).1]
      exact List.dropLast_prefix _
  rw [extract_eq]
  refine .bind (respects_orFail (respects_inspect _) _) fun b => ?_
  refine .bind (respects_orFail hparents _) fun _ => ?_
  exact .bind (respects_orFail (built_writeFile _ hwritten) _) fun _ => .pure _

theorem built_collectEntry {e : Package.SchemaEntry} (found : Collected)
    (he : e ∈ entries) :
    Respects (Built (IsAboveTarget dir entries) (IsTarget dir entries))
      (collectEntry c kind package dir found e) := by
  cases e with
  | onDisk root path => exact .pure _
  | archived archive relative =>
    have htarget : IsTarget dir entries (dir.join relative) := ⟨archive, relative, he, rfl⟩
    refine .bind (built_extract (fun q hq => ⟨_, htarget, hq⟩) htarget) fun _ => ?_
    exact .pure _

theorem built_collectEntries (c : Settings.Config) (kind : ScanKind) (package : Package.Coordinate)
    (dir : Path) (entries : List Package.SchemaEntry) (found : Collected) :
    Respects (Built (IsAboveTarget dir entries) (IsTarget dir entries))
      (entries.foldlM (collectEntry c kind package dir) found) :=
  .foldlM entries (fun _ he found => built_collectEntry found he) found

/-- Whether it succeeds or fails, collecting a package builds what its entries need. -/
theorem collectPackage_built (h : outcome (collectPackage c kind found p) d = (result, d')) :
    d' = d ∨ ∃ filter entries findings, filterFor c.scan kind p.coordinate.packageId = .ok filter ∧
      p.walk d filter = .ok (entries, findings) ∧
      Built (IsAboveTarget (directoryFor c kind p d) entries)
        (IsTarget (directoryFor c kind p d) entries) d d' := by
  rw [outcome_collectPackage] at h
  cases hfilter : filterFor c.scan kind p.coordinate.packageId with
  | error e =>
    rw [hfilter] at h
    exact Or.inl (Prod.mk.inj h).2.symm
  | ok filter =>
    rw [hfilter] at h
    dsimp only at h
    cases hwalk : p.walk d filter with
    | error e =>
      rw [hwalk] at h
      exact Or.inl (Prod.mk.inj h).2.symm
    | ok selected =>
      obtain ⟨entries, findings⟩ := selected
      rw [hwalk] at h
      dsimp only at h
      have hstep := built_collectEntries c kind p.coordinate (directoryFor c kind p d) entries
        (found.report findings) d
      rw [h] at hstep
      exact Or.inr ⟨filter, entries, findings, rfl, hwalk, hstep⟩

/-- No entry that is taken is reported as unsafe. -/
theorem unsafe_of_collectEntry {e : Package.SchemaEntry}
    (h : outcome (collectEntry c kind package dir found e) d = (.ok found', d')) :
    found'.diagnostics.withCode .unsafeArchiveEntry =
      found.diagnostics.withCode .unsafeArchiveEntry := by
  have hadd : ∀ (found : Collected) file, (found.add kind file).diagnostics = found.diagnostics := by
    intro found file
    cases kind <;> rfl
  cases e with
  | onDisk root path =>
    obtain ⟨hresult, -⟩ := Prod.mk.inj h
    obtain rfl := Except.ok.inj hresult
    rw [hadd]
  | archived archive relative =>
    obtain ⟨⟨file, findings⟩, d₁, hextract, h⟩ := outcome_bind_eq_ok.mp h
    obtain ⟨hresult, -⟩ := Prod.mk.inj h
    obtain rfl := Except.ok.inj hresult
    obtain ⟨b, d₂, -, -, -, -, rfl⟩ := extract_eq_ok.mp hextract
    rw [hadd]
    simp [Collected.report, Diagnostics.withCode, Diagnostic.legacyOptionStripped]

theorem unsafe_of_collectPackage (hfilter : filterFor c.scan kind p.coordinate.packageId = .ok filter)
    (hwalk : p.walk d filter = .ok (entries, findings))
    (h : outcome (collectPackage c kind found p) d = (.ok found', d')) :
    found'.diagnostics.withCode .unsafeArchiveEntry =
      (found.report findings).diagnostics.withCode .unsafeArchiveEntry := by
  rw [outcome_collectPackage, hfilter] at h
  dsimp only at h
  rw [hwalk] at h
  exact foldlM_invariant (P := fun found' _ => found'.diagnostics.withCode .unsafeArchiveEntry =
      (found.report findings).diagnostics.withCode .unsafeArchiveEntry)
    (fun e _ found₁ d₁ found₂ d₂ hP hout => (unsafe_of_collectEntry hout).trans hP) rfl h

/-- The walk through an archive selects entries with safe schema names and reports the unsafe ones. -/
theorem walk_of_archive (hcontent : p.content = .archive archive)
    (h : p.walk d filter = .ok (entries, findings)) :
    ∃ listed, Package.openArchive d archive = .ok listed ∧
      findings = (((listed.map (·.name)).filter Package.isSchemaName).filter
        (Package.IsUnsafe ·)).map (.unsafeArchiveEntry · p.coordinate.uniqueName) ∧
      ∀ e ∈ entries, ∃ x ∈ listed, e = .archived archive ⟨x.name⟩ ∧
        Package.isSchemaName x.name = true ∧ ¬ Package.IsUnsafe x.name := by
  rw [Package.Resolved.walk, hcontent] at h
  obtain ⟨listed, hlisted, hfindings, hentries⟩ := Package.walkArchive_eq_ok h
  refine ⟨listed, hlisted, hfindings, fun e he => ?_⟩
  obtain ⟨x, hx, hname, hschema, hsafe, -⟩ := (hentries e).mp he
  exact ⟨x, hx, hname, hschema, hsafe⟩

/-- Between two disks nothing changes outside where a directory leads to on the later one, except
that the directory and its parents may be made. -/
def ChangesInside (dir : Path) (d d' : Disk) : Prop :=
  ∀ l, d'.get? l ≠ d.get? l → (∃ top, d'.Leads dir top ∧ StrictlyBelow top l) ∨
    d.get? l = none ∧ d'.HasDirectory l ∧ ∃ q, q.components <+: dir.components ∧ d'.Leads q l

/-- A path that is joined from a directory leads below it, if anywhere. -/
def StaysBelow (dir : Path) (d : Disk) (relative : Path) : Prop :=
  ∀ l, d.Leads (dir.join relative) l → ∃ top, d.Leads dir top ∧ StrictlyBelow top l

/-- What is built for safe names changes nothing outside the directory that they are joined to. -/
theorem changesInside_of_built
    (hbuilt : Built (IsAboveTarget dir entries) (IsTarget dir entries) d d') (hdir : dir.text ≠ "")
    (hfree : ∀ top, d'.Leads dir top → d'.LinkFreeBelow top)
    (hsafe : ∀ e ∈ entries, ∃ name, e = .archived archive ⟨name⟩ ∧
      Package.isSchemaName name = true ∧ ¬ Package.IsUnsafe name) : ChangesInside dir d d' := by
  intro l hl
  rcases hbuilt.changes l with
    hsame | ⟨hnone, hmade, q, ⟨target, ⟨a, r, he, rfl⟩, hq⟩, hleads⟩ |
      ⟨-, q, ⟨a, r, he, rfl⟩, hleads⟩
  · exact absurd hsame hl
  · obtain ⟨name, heq, hschema, hname⟩ := hsafe _ he
    obtain ⟨-, rfl⟩ := Package.SchemaEntry.archived.inj heq
    rcases Package.leads_into hname hschema hdir hfree hq hleads with habove | ⟨top, htop, hbelow⟩
    · exact Or.inr ⟨hnone, hmade, q, habove, hleads⟩
    · by_cases hself : l = top
      · -- the directory itself was made
        exact Or.inr ⟨hnone, hmade, dir, List.prefix_rfl, hself ▸ htop⟩
      · exact Or.inl ⟨top, htop, hbelow, hself⟩
  · obtain ⟨name, heq, hschema, hname⟩ := hsafe _ he
    obtain ⟨-, rfl⟩ := Package.SchemaEntry.archived.inj heq
    exact Or.inl (Package.leads_below hname hschema hdir hfree hleads)

/-- Whatever an archive lists and whether collecting it succeeds or fails, nothing changes outside
the directory for the package, unless links lie in it. If the archive can be walked, each file that
changes is one to which the path of a selected entry leads, and these entries have safe names and
stay below the directory; the unsafe schema names are reported, each as often as it is listed. -/
theorem collectPackage_stays_inside (hcontent : p.content = .archive archive)
    (h : outcome (collectPackage c kind found p) d = (result, d'))
    (hfree : ∀ top, d'.Leads (directoryFor c kind p d) top → d.LinkFreeBelow top) :
    ChangesInside (directoryFor c kind p d) d d' ∧
      ∀ filter entries findings, filterFor c.scan kind p.coordinate.packageId = .ok filter →
        p.walk d filter = .ok (entries, findings) →
        (∃ listed, Package.openArchive d archive = .ok listed ∧
          findings = (((listed.map (·.name)).filter Package.isSchemaName).filter
            (Package.IsUnsafe ·)).map (.unsafeArchiveEntry · p.coordinate.uniqueName) ∧
          ∀ e ∈ entries, ∃ x ∈ listed, e = .archived archive ⟨x.name⟩ ∧
            ¬ Package.IsUnsafe x.name ∧ StaysBelow (directoryFor c kind p d) d' ⟨x.name⟩) ∧
        (∀ l, d'.get? l ≠ d.get? l → View.HasFile d'.get? l →
          ∃ q, IsTarget (directoryFor c kind p d) entries q ∧ d'.Leads q l) ∧
        ∀ found', result = .ok found' → found'.diagnostics.withCode .unsafeArchiveEntry =
          found.diagnostics.withCode .unsafeArchiveEntry ++ findings := by
  have hdir : (directoryFor c kind p d).text ≠ "" := extractionDirectory_text_ne_empty _ _ _
  have hbuilt := collectPackage_built h
  have hfree' : ∀ top, d'.Leads (directoryFor c kind p d) top → d'.LinkFreeBelow top := by
    intro top htop
    rcases hbuilt with rfl | ⟨filter, entries, findings, -, -, hbuilt⟩
    · exact hfree top htop
    · exact hbuilt.linkFreeBelow (hfree top htop)
  constructor
  · rcases hbuilt with rfl | ⟨filter, entries, findings, -, hwalk, hbuilt⟩
    · exact fun l hl => absurd rfl hl
    · obtain ⟨listed, -, -, hentries⟩ := walk_of_archive hcontent hwalk
      have hsafe : ∀ e ∈ entries, ∃ name, e = .archived archive ⟨name⟩ ∧
          Package.isSchemaName name = true ∧ ¬ Package.IsUnsafe name := by
        intro e he
        obtain ⟨x, -, hname, hsafe⟩ := hentries e he
        exact ⟨x.name, hname, hsafe⟩
      exact changesInside_of_built hbuilt hdir hfree' hsafe
  · intro filter entries findings hfilter hwalk
    obtain ⟨listed, hlisted, hfindings, hentries⟩ := walk_of_archive hcontent hwalk
    refine ⟨⟨listed, hlisted, hfindings, fun e he => ?_⟩, fun l hl hfile => ?_, ?_⟩
    · obtain ⟨x, hx, hname, hschema, hsafe⟩ := hentries e he
      exact ⟨x, hx, hname, hsafe, fun l => Package.leads_below hsafe hschema hdir hfree'⟩
    · rcases hbuilt with rfl | ⟨filter', entries', findings', hfilter', hwalk', hbuilt⟩
      · exact absurd rfl hl
      · obtain rfl := Except.ok.inj (hfilter.symm.trans hfilter')
        obtain ⟨rfl, rfl⟩ := Prod.mk.inj (Except.ok.inj (hwalk.symm.trans hwalk'))
        rcases hbuilt.changes l with hsame | hmade | hwritten
        · exact absurd hsame hl
        · exact absurd hmade.directory (not_hasDirectory_of_hasFile hfile)
        · exact hwritten.leads
    · rintro found' rfl
      have hall : findings.withCode .unsafeArchiveEntry = findings := by
        rw [hfindings, Diagnostics.withCode, List.filter_eq_self]
        intro x hx
        obtain ⟨name, -, rfl⟩ := List.mem_map.mp hx
        exact decide_eq_true rfl
      rw [unsafe_of_collectPackage hfilter hwalk h, Collected.report, Diagnostics.withCode,
        List.filter_append]
      exact congrArg _ hall

/-- A package whose archive is in the root directory. -/
def archived : Package.Resolved := ⟨⟨"g", "a", none, none⟩, .archive ⟨"/t"⟩⟩

/-- An archive with an entry that goes up inside it and one that climbs out of it. -/
def climbingDisk : Disk := Package.archiveDisk [⟨"./b/../c.proto", [7]⟩, ⟨"../e.proto", [8]⟩]

/-- A configuration that compiles the project's own files and extracts imports below a work
directory in the root directory. -/
def importConfig : Settings.Config where
  paths := { sourceDir := ⟨"/s"⟩, workDir := ⟨"/w"⟩, outDir := ⟨"/o"⟩ }
  generators := { enabled := [] }

theorem climbingDisk_not_link (l : Location) (t : String) :
    climbingDisk.get? l ≠ some (.link t) := by
  rw [climbingDisk, Package.archiveDisk, get?]
  split_ifs
  · simp
  · rw [List.lookup]
    split <;> simp

theorem isUnsafe_climbing : Package.IsUnsafe "../e.proto" := by
  have hcomponents : (Path.mk "../e.proto").components = [.up, .name "e.proto"] := by
    decide +kernel
  have hclimbs : Package.Climbs 0 (Path.mk "../e.proto").components := by
    rw [hcomponents]
    exact ⟨[.up], by simp, by decide⟩
  exact Or.inr (Or.inr hclimbs)

theorem not_isUnsafe_inner : ¬ Package.IsUnsafe "./b/../c.proto" := by
  have henclosed : Package.enclosedPath? "./b/../c.proto" = some ⟨"./b/../c.proto"⟩ := by cbv
  rw [Package.enclosedPath?_eq] at henclosed
  intro h
  simp [h] at henclosed

/-- The walk through the archive reports the entry that climbs out. -/
theorem walk_archived :
    ∃ entries, archived.walk climbingDisk .allowAll =
      .ok (entries, [.unsafeArchiveEntry "../e.proto" archived.coordinate.uniqueName]) := by
  have hcontent : archived.content = .archive ⟨"/t"⟩ := rfl
  have hopen : Package.openArchive climbingDisk ⟨"/t"⟩ =
      .ok [⟨"./b/../c.proto", [7]⟩, ⟨"../e.proto", [8]⟩] := by cbv
  obtain ⟨⟨entries, findings⟩, hwalk⟩ :
      ∃ selected, archived.walk climbingDisk .allowAll = .ok selected := by
    rw [Package.Resolved.walk, hcontent]
    dsimp only
    rw [Package.walkArchive, hopen]
    exact ⟨_, rfl⟩
  obtain ⟨listed, hlisted, hfindings, -⟩ := walk_of_archive hcontent hwalk
  obtain rfl := Except.ok.inj (hopen.symm.trans hlisted)
  have hinner : Package.isSchemaName "./b/../c.proto" = true := by cbv
  have hclimbing : Package.isSchemaName "../e.proto" = true := by cbv
  refine ⟨entries, ?_⟩
  rw [hwalk, hfindings]
  simp [hinner, hclimbing, isUnsafe_climbing, not_isUnsafe_inner]

theorem climbing_entry_reported :
    (∀ l t, climbingDisk.get? l ≠ some (.link t)) ∧
      (∃ entries, archived.walk climbingDisk .allowAll =
        .ok (entries, [.unsafeArchiveEntry "../e.proto" archived.coordinate.uniqueName])) ∧
      ∃ result d', outcome (collectPackage importConfig .importOnly {} archived) climbingDisk =
          (result, d') ∧
        ChangesInside (directoryFor importConfig .importOnly archived climbingDisk) climbingDisk d' ∧
        ∀ found', result = .ok found' → found'.diagnostics.withCode .unsafeArchiveEntry =
          [.unsafeArchiveEntry "../e.proto" archived.coordinate.uniqueName] := by
  obtain ⟨result, d', h⟩ : ∃ result d',
      outcome (collectPackage importConfig .importOnly {} archived) climbingDisk = (result, d') :=
    ⟨_, _, (Prod.eta _).symm⟩
  have hcontent : archived.content = .archive ⟨"/t"⟩ := rfl
  have hfilter : filterFor importConfig.scan .importOnly archived.coordinate.packageId =
      .ok .allowAll := rfl
  obtain ⟨hinside, hrest⟩ := collectPackage_stays_inside hcontent h
    fun _ _ l t _ _ => climbingDisk_not_link l t
  obtain ⟨entries, hwalk⟩ := walk_archived
  obtain ⟨-, -, hreported⟩ := hrest .allowAll entries _ hfilter hwalk
  exact ⟨climbingDisk_not_link, walk_archived, result, d', h, hinside, hreported⟩

end ProtoForge.Sources
