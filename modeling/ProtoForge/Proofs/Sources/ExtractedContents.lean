import ProtoForge.Proofs.Files.CanonicalTexts
import ProtoForge.Proofs.Files.Enclosure
import ProtoForge.Proofs.Files.Making
import ProtoForge.Proofs.Files.Overwriting
import ProtoForge.Proofs.Package.Selection
import ProtoForge.Proofs.Sources.ExtractionDirectories
import ProtoForge.Proofs.Sources.Recollection
import ProtoForge.Proofs.Sources.Sanitizing

/-!
# What is extracted

Every selected entry of an archive is written below the directory of its
package and scan: as it is or, in a scan for dependencies, without the lines
that mention an option. It stays there unless the path of a later entry leads
to the same place, and without links below the work directory none does.
-/
namespace ProtoForge.Sources

open Files Disk Package

/-- The scans in which a package is collected. A test run does not scan dependencies. -/
def scanKinds (c : Settings.Config) (p : Package.Resolved) : List ScanKind :=
  (if c.test = false ∧ c.scan.dependencies.selects p.coordinate.packageId then [.dependency] else []) ++
    if c.scan.imports.selects p.coordinate.packageId then [.importOnly] else []

/-- An entry of an archive that is extracted in a scan. -/
structure Extraction where
  kind : ScanKind
  entry : ArchiveEntry

namespace Extraction

variable (w : Extraction) (p : Package.Resolved) (work : Path) (options : List String)

/-- The directory below a work directory that the entry is extracted to. -/
def directory : Path := extractionDirectory work w.kind p.coordinate

/-- The path at which the entry is extracted. -/
def target : Path := (w.directory p work).join ⟨w.entry.name⟩

/-- The schema file that the entry becomes. -/
def file : SchemaFile := ⟨w.target p work, w.directory p work, .extracted p.coordinate⟩

/-- The entry as a text, whatever its bytes. -/
def text : String := Bytes.toTextLossy w.entry.data

/-- Nothing is taken out of the entry: it is for imports only, or no line mentions an option. -/
def IsKept : Prop := w.kind = .importOnly ∨ options = [] ∨ ∀ l ∈ Text.lines w.text, ¬ Offends options l

instance : Decidable (w.IsKept options) := inferInstanceAs (Decidable (_ ∨ _ ∨ _))

/-- The bytes that are to be extracted: those of the entry or, if lines are to be dropped, those of
its sanitized text. -/
def bytes : Bytes :=
  if w.IsKept options then w.entry.data else Bytes.ofText (sanitize options w.text).content

/-- The findings about the entry, one for each option that is taken out. -/
def findings : Diagnostics :=
  (sanitize options w.text).stripped.map (.legacyOptionStripped w.entry.name · p.coordinate.uniqueName)

/-- The file that is to be written. -/
def write : FileWrite := ⟨w.target p work, w.bytes options⟩

end Extraction

/-- The extractions of those that are made in a scan of one kind. -/
def ofKind (kind : ScanKind) (ws : List Extraction) : List Extraction := ws.filter (·.kind = kind)

/-- The entries of an archive that a scan extracts. -/
def scanExtractions (c : Settings.Config) (p : Package.Resolved) (listed : List ArchiveEntry)
    (kind : ScanKind) : List Extraction :=
  match filterFor c.scan kind p.coordinate.packageId with
  | .ok filter => (selectedEntries filter listed).map (⟨kind, ·⟩)
  | .error _ => []

/-- The entries of an archive that a collection extracts, in their order. -/
def extractions (c : Settings.Config) (p : Package.Resolved) (listed : List ArchiveEntry) :
    List Extraction :=
  (scanKinds c p).flatMap (scanExtractions c p listed)

/-- Entries were extracted: their files were written in turn, and the dependencies among them became
roots and were reported. -/
structure Extracts (c : Settings.Config) (p : Package.Resolved) (work : Path) (ws : List Extraction)
    (found : Collected) (d : Disk) (found' : Collected) (d' : Disk) : Prop where
  written : WrittenInTurn (ws.map (·.write p work c.scan.stripOptions)) d d'
  roots : found'.roots = found.roots ++ (ofKind .dependency ws).map (·.file p work)
  includes : found'.includes =
    found.includes.insertAll ((ofKind .dependency ws).map (·.directory p work))
  imports : found'.imports = found.imports.insertAll ((ofKind .importOnly ws).map (·.directory p work))
  findings : found'.diagnostics.withCode .legacyOptionStripped =
    found.diagnostics.withCode .legacyOptionStripped ++
      (ofKind .dependency ws).flatMap (·.findings p c.scan.stripOptions)

variable {c : Settings.Config} {p : Package.Resolved} {work archive dir relative : Path}
  {kind : ScanKind} {filter : Scan.Filter} {listed xs : List ArchiveEntry} {x : ArchiveEntry}
  {ws vs : List Extraction} {v w : Extraction} {found found' found'' : Collected} {d d' d'' : Disk}
  {options : List String} {package : Coordinate} {b : Bytes} {file : SchemaFile}
  {findings : Diagnostics} {kinds : List ScanKind}

/-- The bytes under which an entry is extracted, and what is stripped. -/
theorem extractedBytes_eq (w : Extraction) (options : List String) :
    extractedBytes options w.kind w.entry.data =
      (w.bytes options, if w.kind = .dependency then (sanitize options w.text).stripped else []) := by
  obtain ⟨kind, entry⟩ := w
  cases kind with
  | importOnly => simp [extractedBytes, Extraction.bytes, Extraction.IsKept]
  | dependency =>
    have hkept : (Extraction.mk .dependency entry).IsKept options ↔
        (sanitize options (Bytes.toTextLossy entry.data)).changed = false := by
      rw [Sanitized.changed, stripped_sanitize, Bool.not_eq_false', List.isEmpty_iff,
        strippedOptions_eq_nil_iff]
      constructor
      · rintro (hkind | rfl | hclean)
        · cases hkind
        · rintro l - ⟨o, ho, -⟩
          cases ho
        · exact hclean
      · exact fun hclean => Or.inr (Or.inr hclean)
    rw [extractedBytes, Extraction.bytes]
    by_cases h : (Extraction.mk .dependency entry).IsKept options
    · simp [h, hkept.mp h, Extraction.text]
    · have hchanged : (sanitize options (Bytes.toTextLossy entry.data)).changed = true := by
        rw [hkept, Bool.not_eq_false] at h
        exact h
      simp [h, hchanged, Extraction.text]

/-- An entry that was extracted: directories were made, and then the file was written. -/
theorem extract_written (hread : readEntry d archive relative = .ok b)
    (h : outcome (extract options kind package dir archive relative) d = (.ok (file, findings), d')) :
    file = ⟨dir.join relative, dir, .extracted package⟩ ∧
      findings = (extractedBytes options kind b).2.map
        (.legacyOptionStripped relative.text · package.uniqueName) ∧
      WrittenInTurn [⟨dir.join relative, (extractedBytes options kind b).1⟩] d d' := by
  obtain ⟨b', d₁, hb, hmake, hwrite, rfl, rfl⟩ := extract_eq_ok.mp h
  obtain rfl := Except.ok.inj (hread.symm.trans hb)
  have hmade : Built (fun _ => True) (fun _ => False) d d₁ := by
    rw [makeDirectoriesAbove] at hmake
    cases hparent : (dir.join relative).parent? with
    | none =>
      rw [hparent] at hmake
      obtain ⟨-, rfl⟩ := Prod.mk.inj hmake
      exact .refl d
    | some parent =>
      rw [hparent] at hmake
      exact (built_makeDirectories fun _ _ => trivial).of_outcome hmake
  exact ⟨rfl, rfl, .of_writeFile hmade hwrite⟩

namespace Extracts

theorem refl (c : Settings.Config) (p : Package.Resolved) (work : Path) (found : Collected) (d : Disk) :
    Extracts c p work [] found d found d :=
  ⟨.refl d, (List.append_nil _).symm, rfl, rfl, (List.append_nil _).symm⟩

/-- Findings of another kind are reported. -/
theorem of_report (hcode : findings.withCode .legacyOptionStripped = []) (found : Collected)
    (d : Disk) : Extracts c p work [] found d (found.report findings) d := by
  refine ⟨.refl d, (List.append_nil _).symm, rfl, rfl, ?_⟩
  rw [Collected.report, Diagnostics.withCode, List.filter_append]
  exact congrArg _ hcode

theorem append (h : Extracts c p work ws found d found' d')
    (h' : Extracts c p work vs found' d' found'' d'') :
    Extracts c p work (ws ++ vs) found d found'' d'' := by
  have hkinds : ∀ kind, ofKind kind (ws ++ vs) = ofKind kind ws ++ ofKind kind vs := fun kind =>
    List.filter_append ..
  refine ⟨?_, ?_, ?_, ?_, ?_⟩
  · rw [List.map_append]
    exact h.written.append h'.written
  · rw [h'.roots, h.roots, hkinds, List.map_append, List.append_assoc]
  · rw [h'.includes, h.includes, hkinds, List.map_append, IncludeDirectories.insertAll,
      IncludeDirectories.insertAll, IncludeDirectories.insertAll, List.foldl_append]
  · rw [h'.imports, h.imports, hkinds, List.map_append, IncludeDirectories.insertAll,
      IncludeDirectories.insertAll, IncludeDirectories.insertAll, List.foldl_append]
  · rw [h'.findings, h.findings, hkinds, List.flatMap_append, List.append_assoc]

/-- The archive stays as it is when none of the entries is written over it. -/
theorem openArchive_eq (h : Extracts c p work ws found d found' d')
    (hopen : openArchive d archive = .ok listed)
    (hapart : ∀ w ∈ ws, ¬ d'.SamePlace (w.target p work) archive) :
    openArchive d' archive = .ok listed := by
  obtain ⟨content, hread, hcontent⟩ := Disk.bind_eq_ok.mp hopen
  refine Disk.bind_eq_ok.mpr ⟨content, h.written.built.read hread ?_, hcontent⟩
  rintro q ⟨u, hu, rfl⟩
  obtain ⟨w, hw, rfl⟩ := List.mem_map.mp hu
  exact hapart w hw

/-- One entry is extracted. -/
theorem of_collectEntry (hread : readEntry d archive ⟨w.entry.name⟩ = .ok w.entry.data)
    (h : outcome (collectEntry c w.kind p.coordinate (w.directory p work) found
      (.archived archive ⟨w.entry.name⟩)) d = (.ok found', d')) :
    Extracts c p work [w] found d found' d' := by
  obtain ⟨⟨file, findings⟩, d₁, hextract, h⟩ := outcome_bind_eq_ok.mp h
  obtain ⟨hresult, rfl⟩ := Prod.mk.inj h
  obtain rfl := Except.ok.inj hresult
  obtain ⟨rfl, rfl, hwritten⟩ := extract_written hread hextract
  rw [extractedBytes_eq] at hwritten ⊢
  obtain ⟨kind, entry⟩ := w
  cases kind with
  | dependency =>
    refine ⟨hwritten, rfl, rfl, rfl, ?_⟩
    have hcodes : ∀ x ∈ (Extraction.mk .dependency entry).findings p c.scan.stripOptions,
        x.code = .legacyOptionStripped := by
      intro x hx
      obtain ⟨o, -, rfl⟩ := List.mem_map.mp hx
      rfl
    have hall := List.filter_eq_self.mpr fun x hx => decide_eq_true (hcodes x hx)
    have hfindings : (ofKind .dependency [Extraction.mk .dependency entry]).flatMap
        (·.findings p c.scan.stripOptions) =
          (Extraction.mk .dependency entry).findings p c.scan.stripOptions :=
      List.append_nil _
    rw [hfindings, Diagnostics.withCode, Diagnostics.withCode, ← hall, ← List.filter_append]
    rfl
  | importOnly =>
    refine ⟨hwritten, ?_, rfl, rfl, ?_⟩
    · simp [ofKind, Collected.add, Collected.report]
    · simp [ofKind, Collected.add, Collected.report]

/-- The entries of one scan are extracted one after the other, as long as none of them is written
over the archive. -/
theorem of_collectEntries (hnames : HasPlainNames listed) (hopen : openArchive d archive = .ok listed)
    (hxs : ∀ x ∈ xs, x ∈ listed ∧ IsSelected filter x)
    (hapart : ∀ x ∈ xs, ¬ d'.SamePlace ((Extraction.mk kind x).target p work) archive)
    (h : outcome ((xs.map fun x => .archived archive ⟨x.name⟩).foldlM
      (collectEntry c kind p.coordinate (extractionDirectory work kind p.coordinate)) found) d =
        (.ok found', d')) :
    Extracts c p work (xs.map (⟨kind, ·⟩)) found d found' d' := by
  induction xs generalizing found d with
  | nil =>
    obtain ⟨hresult, rfl⟩ := Prod.mk.inj h
    obtain rfl := Except.ok.inj hresult
    exact refl c p _ found d
  | cons x xs ih =>
    obtain ⟨⟨hx, hselected⟩, hxs⟩ := List.forall_mem_cons.mp hxs
    obtain ⟨hxapart, hapart⟩ := List.forall_mem_cons.mp hapart
    rw [List.map_cons, List.foldlM_cons] at h
    obtain ⟨found₁, d₁, hfirst, hrest⟩ := outcome_bind_eq_ok.mp h
    have hone : Extracts c p work [⟨kind, x⟩] found d found₁ d₁ :=
      .of_collectEntry (hnames.readEntry_eq hopen hx hselected) hfirst
    have hgrown : d₁.Grown d' :=
      ((built_collectEntries c kind p.coordinate _ _ found₁).of_outcome hrest).grown
    have hopen₁ : openArchive d₁ archive = .ok listed := by
      refine hone.openArchive_eq hopen fun w hw hsame => ?_
      obtain rfl := List.mem_singleton.mp hw
      exact hxapart (hsame.grown hgrown)
    exact hone.append (ih hopen₁ hxs hapart hrest)

/-- The selected entries of a package are extracted in a scan. -/
theorem of_collectPackage (hcontent : p.content = .archive archive) (hnames : HasPlainNames listed)
    (hopen : openArchive d archive = .ok listed)
    (hapart : ∀ w ∈ scanExtractions c p listed kind, ¬ d'.SamePlace (w.target p (c.workDir d)) archive)
    (h : outcome (collectPackage c kind found p) d = (.ok found', d')) :
    Extracts c p (c.workDir d) (scanExtractions c p listed kind) found d found' d' := by
  rw [outcome_collectPackage] at h
  rw [scanExtractions] at hapart ⊢
  cases hfilter : filterFor c.scan kind p.coordinate.packageId with
  | error e =>
    rw [hfilter] at h
    cases h
  | ok filter =>
    rw [hfilter] at h hapart
    dsimp only at h hapart ⊢
    cases hwalk : p.walk d filter with
    | error e =>
      rw [hwalk] at h
      cases h
    | ok selected =>
      obtain ⟨entries, findings⟩ := selected
      rw [hwalk] at h
      rw [Resolved.walk, hcontent] at hwalk
      obtain ⟨listed', hlisted', rfl, rfl⟩ := walkArchive_selected hwalk
      obtain rfl := Except.ok.inj (hopen.symm.trans hlisted')
      have hreport : Extracts c p (c.workDir d) [] found d
          (found.report (unsafeFindings p.coordinate listed)) d := by
        refine .of_report ?_ found d
        rw [Diagnostics.withCode, List.filter_eq_nil_iff]
        intro x hx
        obtain ⟨name, -, rfl⟩ := List.mem_map.mp hx
        simp [Diagnostic.unsafeArchiveEntry]
      refine hreport.append (of_collectEntries hnames hopen (fun x hx => mem_selectedEntries.mp hx)
        (fun x hx => ?_) h)
      exact hapart _ (List.mem_map_of_mem hx)

/-- The scans of a package extract what each of them selects. -/
theorem of_collectScans (hcontent : p.content = .archive archive) (hnames : HasPlainNames listed)
    (hopen : openArchive d archive = .ok listed)
    (hapart : ∀ w ∈ kinds.flatMap (scanExtractions c p listed),
      ¬ d'.SamePlace (w.target p (c.workDir d)) archive)
    (h : outcome (collectScans c found (kinds.map (·, p))) d = (.ok found', d')) :
    Extracts c p (c.workDir d) (kinds.flatMap (scanExtractions c p listed)) found d found' d' := by
  induction kinds generalizing found d with
  | nil =>
    obtain ⟨hresult, rfl⟩ := Prod.mk.inj h
    obtain rfl := Except.ok.inj hresult
    exact refl c p _ found d
  | cons kind kinds ih =>
    rw [List.flatMap_cons, List.forall_mem_append] at hapart
    obtain ⟨hfirstApart, hapart⟩ := hapart
    rw [collectScans, List.map_cons, List.foldlM_cons] at h
    obtain ⟨found₁, d₁, hfirst, hrest⟩ := outcome_bind_eq_ok.mp h
    have hgrown : d₁.Grown d' := ((builtUp_collectScans c found₁ _).of_outcome hrest).grown
    have hapart₁ : ∀ w ∈ scanExtractions c p listed kind,
        ¬ d₁.SamePlace (w.target p (c.workDir d)) archive := fun w hw hsame =>
      hfirstApart w hw (hsame.grown hgrown)
    have hone := of_collectPackage hcontent hnames hopen hapart₁ hfirst
    have hopen₁ := hone.openArchive_eq hopen hapart₁
    have hwork : c.workDir d₁ = c.workDir d := by
      rw [Settings.Config.workDir, Settings.Config.workDir, absolutize, absolutize,
        hone.written.built.grown.workingDirectory]
    have hrest' := ih hopen₁ (by rwa [hwork]) hrest
    rw [hwork] at hrest'
    exact hone.append hrest'

end Extracts

/-! ### Places of extracted files -/

theorem kind_of_mem_scanExtractions (hw : w ∈ scanExtractions c p listed kind) :
    w.kind = kind ∧ w.entry ∈ listed ∧ ∃ filter, IsSelected filter w.entry := by
  rw [scanExtractions] at hw
  split at hw
  · rename_i filter _
    obtain ⟨x, hx, rfl⟩ := List.mem_map.mp hw
    obtain ⟨hmem, hselected⟩ := mem_selectedEntries.mp hx
    exact ⟨rfl, hmem, filter, hselected⟩
  · cases hw

theorem nodup_extractions (hnames : HasPlainNames listed) (c : Settings.Config) (p : Package.Resolved) :
    (extractions c p listed).Nodup := by
  have hscan : ∀ kind, (scanExtractions c p listed kind).Nodup := by
    intro kind
    rw [scanExtractions]
    split
    · exact (hnames.nodup_selectedEntries _).map fun x y h => (Extraction.mk.inj h).2
    · exact List.nodup_nil
  have hkinds : (scanKinds c p).Nodup := by
    rw [scanKinds]
    split_ifs <;> decide
  rw [extractions, List.nodup_flatMap]
  refine ⟨fun kind _ => hscan kind, hkinds.imp fun {kind kind'} hne => ?_⟩
  intro w hw hw'
  exact hne ((kind_of_mem_scanExtractions hw).1.symm.trans (kind_of_mem_scanExtractions hw').1)

/-- An extracted file lies below the work directory along its kind, the hash and its name. -/
theorem components_target (hnames : HasPlainNames listed) (hw : w ∈ scanExtractions c p listed kind)
    (work : Path) : (w.target p work).components = work.components ++
      (w.kind.directory :: Digest.ofText p.coordinate.uniqueName :: Path.pieces w.entry.name).map
        .name := by
  obtain ⟨-, hmem, filter, hselected⟩ := kind_of_mem_scanExtractions hw
  have hdir : (w.directory p work).text ≠ "" := extractionDirectory_text_ne_empty _ _ _
  rw [Extraction.target, hnames.components_join hmem hselected hdir, Extraction.directory,
    components_extractionDirectory, List.append_assoc]
  rfl

/-- Without links below the work directory different extractions have different places. -/
theorem eq_of_samePlace (hnames : HasPlainNames listed) (hv : v ∈ extractions c p listed)
    (hw : w ∈ extractions c p listed) (hfree : ∀ top, d.Leads work top → d.LinkFreeBelow top)
    (h : d.SamePlace (v.target p work) (w.target p work)) : v = w := by
  have hplace : ∀ u ∈ extractions c p listed, ∀ l, d.Leads (u.target p work) l → ∃ top,
      d.Leads work top ∧ l = top ++
        u.kind.directory :: Digest.ofText p.coordinate.uniqueName :: Path.pieces u.entry.name := by
    intro u hu l hl
    obtain ⟨kind, -, hu⟩ := List.mem_flatMap.mp hu
    obtain ⟨-, hmem, filter, hschema, -⟩ := kind_of_mem_scanExtractions hu
    refine hl.eq_append_names (components_target hnames hu work) (List.cons_ne_nil _ _) ?_ hfree
    simp only [List.forall_mem_cons]
    exact ⟨(isFileName_directory u.kind).toIsOrdinary, (Digest.isFileName_sha256 _).toIsOrdinary,
      hnames.ordinary u.entry hmem hschema⟩
  obtain ⟨l, hvl, hwl⟩ := h
  obtain ⟨top, htop, rfl⟩ := hplace v hv l hvl
  obtain ⟨top', htop', heq⟩ := hplace w hw _ hwl
  obtain rfl := htop.unique htop'
  obtain ⟨hkind, hrest⟩ := List.cons_eq_cons.mp (List.append_cancel_left heq)
  have hpieces := (List.cons_eq_cons.mp hrest).2
  obtain ⟨_, -, hvscan⟩ := List.mem_flatMap.mp hv
  obtain ⟨_, -, hwscan⟩ := List.mem_flatMap.mp hw
  obtain ⟨-, hvmem, -, hvschema, -⟩ := kind_of_mem_scanExtractions hvscan
  obtain ⟨-, hwmem, -⟩ := kind_of_mem_scanExtractions hwscan
  have hname : v.entry.name = w.entry.name := by
    rw [← Generation.ofPieces_pieces v.entry.name, hpieces, Generation.ofPieces_pieces]
  have hentry := hnames.eq_of_name_eq hvmem hwmem hvschema hname
  have hkinds : v.kind = w.kind := by
    have hinjective : ∀ kind kind' : ScanKind, kind.directory = kind'.directory → kind = kind' := by
      intro kind kind'
      cases kind <;> cases kind' <;> decide
    exact hinjective _ _ hkind
  obtain ⟨vkind, ventry⟩ := v
  obtain ⟨wkind, wentry⟩ := w
  exact congrArg₂ Extraction.mk hkinds hentry

/-- The scans of a single package. -/
theorem scans_singleton (c : Settings.Config) (p : Package.Resolved) :
    scans c [p] = (scanKinds c p).map (·, p) := by
  rw [scans, scanKinds]
  cases c.test <;> cases hd : c.scan.dependencies.selects p.coordinate.packageId <;>
    cases hi : c.scan.imports.selects p.coordinate.packageId <;> simp [selected, hd, hi]

theorem diagnostics_collectLocal (h : collectLocal d dir = .ok found) : found.diagnostics = [] := by
  obtain ⟨files, -, h⟩ := Disk.bind_eq_ok.mp h
  obtain rfl := Except.ok.inj h
  rfl

/-- After a collection with a single package, an archive that none of its entries was written over,
every selected entry is extracted in each scan that is made: at the path of the entry lies a file
with the bytes of the entry or of its sanitized text, unless the path of an entry that was extracted
later leads to the same place. Without links below the work directory none does. The dependencies
alone become roots and are reported, each once for every option that is taken out. -/
theorem collect_extracts (hcontent : p.content = .archive archive)
    (hopen : openArchive d archive = .ok listed) (hnames : HasPlainNames listed)
    (h : outcome (collect c [p]) d = (.ok found, d'))
    (hapart : ∀ w ∈ extractions c p listed, ¬ d'.SamePlace (w.target p (c.workDir d)) archive) :
    (∀ before w after, extractions c p listed = before ++ w :: after →
      (∀ v ∈ after, ¬ d'.SamePlace (v.target p (c.workDir d)) (w.target p (c.workDir d))) →
        d'.HoldsBytes (w.target p (c.workDir d)) (w.bytes c.scan.stripOptions)) ∧
    ((∀ top, d'.Leads (c.workDir d) top → d.LinkFreeBelow top) → ∀ w ∈ extractions c p listed,
      d'.HoldsBytes (w.target p (c.workDir d)) (w.bytes c.scan.stripOptions)) ∧
    ∃ own, collectLocal d (c.sourceDir d) = .ok own ∧
      found.roots = own.roots ++
        (ofKind .dependency (extractions c p listed)).map (·.file p (c.workDir d)) ∧
      found.includes = own.includes.insertAll
        ((ofKind .dependency (extractions c p listed)).map (·.directory p (c.workDir d))) ∧
      found.diagnostics.withCode .legacyOptionStripped =
        (ofKind .dependency (extractions c p listed)).flatMap (·.findings p c.scan.stripOptions) := by
  rw [outcome_collect, scans_singleton] at h
  cases hown : collectLocal d (c.sourceDir d) with
  | error f =>
    rw [hown] at h
    cases h
  | ok own =>
    rw [hown] at h
    have hextracts : Extracts c p (c.workDir d) (extractions c p listed) own d found d' :=
      .of_collectScans hcontent hnames hopen hapart h
    have hholds : ∀ before w after, extractions c p listed = before ++ w :: after →
        (∀ v ∈ after, ¬ d'.SamePlace (v.target p (c.workDir d)) (w.target p (c.workDir d))) →
          d'.HoldsBytes (w.target p (c.workDir d)) (w.bytes c.scan.stripOptions) := by
      intro before w after heq hlater
      have hwrites := congrArg (List.map (·.write p (c.workDir d) c.scan.stripOptions)) heq
      rw [List.map_append, List.map_cons] at hwrites
      refine hextracts.written.holds _ (w.write p (c.workDir d) c.scan.stripOptions) _ hwrites ?_
      intro u hu
      obtain ⟨v, hv, rfl⟩ := List.mem_map.mp hu
      exact hlater v hv
    refine ⟨hholds, fun hfree w hw => ?_, own, rfl, hextracts.roots, hextracts.includes, ?_⟩
    · obtain ⟨before, after, heq⟩ := List.append_of_mem hw
      refine hholds before w after heq fun v hv hsame => ?_
      have hnodup := nodup_extractions hnames c p
      have hmem : v ∈ extractions c p listed := by
        rw [heq]
        exact List.mem_append_right before (List.mem_cons_of_mem w hv)
      have hfree' : ∀ top, d'.Leads (c.workDir d) top → d'.LinkFreeBelow top := fun top htop =>
        hextracts.written.built.linkFreeBelow (hfree top htop)
      obtain rfl := eq_of_samePlace hnames hmem hw hfree' hsame
      rw [heq, List.nodup_append] at hnodup
      exact (List.nodup_cons.mp hnodup.2.1).1 hv
    · have hnone : own.diagnostics = [] := diagnostics_collectLocal hown
      simpa [hnone, Diagnostics.withCode] using hextracts.findings

/-! ### A package that both scans select -/

/-- Both scans are made, and one option is taken out of dependencies. -/
def thoroughConfig : Settings.Config where
  paths := { sourceDir := ⟨"/s"⟩, workDir := ⟨"/w"⟩, outDir := ⟨"/o"⟩ }
  scan := { dependencies := .everything, imports := .everything, stripOptions := ["x"] }
  generators := { enabled := [] }

/-- A package with an archive. -/
def plainPackage (archive : Path) : Package.Resolved := ⟨⟨"g", "a", none, none⟩, .archive archive⟩

/-- A schema file in an archive. -/
def plainEntry (b : Bytes) : ArchiveEntry := ⟨"e.proto", b⟩

/-- The directory for what a scan extracts from the package. -/
def plainDirectory (kind : ScanKind) : Path := pathOf ["w", kind.directory, plainHash]

/-- Where the schema file is extracted. -/
def plainTarget (kind : ScanKind) : Path := (plainDirectory kind).join ⟨"e.proto"⟩

theorem isFileName_plain (kind : ScanKind) :
    ∀ n ∈ ["w", kind.directory, plainHash, "e.proto"], IsFileName n := by
  cases kind <;> decide

theorem isOrdinary_plain {names : List String} (kind : ScanKind)
    (hnames : names ⊆ ["w", kind.directory, plainHash, "e.proto"]) : ∀ n ∈ names, Path.IsOrdinary n :=
  fun n hn => (isFileName_plain kind n (hnames hn)).toIsOrdinary

theorem directory_plain (kind : ScanKind) :
    extractionDirectory ⟨"/w"⟩ kind (plainPackage archive).coordinate = plainDirectory kind := by
  have hname : Coordinate.uniqueName ⟨"g", "a", none, none⟩ = "g:a" := by decide
  have hkind : (pathOf ["w"]).join ⟨kind.directory⟩ = pathOf ["w", kind.directory] :=
    join_pathOf (isOrdinary_plain kind (by simp)) (isFileName_directory kind).toIsOrdinary
  have hpackage : (pathOf ["w", kind.directory]).join ⟨plainHash⟩ = plainDirectory kind :=
    join_pathOf (isOrdinary_plain kind (by simp))
      (isOrdinary_plain kind (List.Subset.refl _) _ (by simp))
  rw [extractionDirectory, plainPackage, hname, digest_plain, ← hpackage, ← hkind]
  rfl

theorem target_plain (kind : ScanKind) (archive : Path) (b : Bytes) (d : Disk) :
    (Extraction.mk kind (plainEntry b)).target (plainPackage archive) (thoroughConfig.workDir d) =
      plainTarget kind := by
  have hwork : thoroughConfig.workDir d = ⟨"/w"⟩ := absolutize_pathOf d ["w"]
  rw [Extraction.target, Extraction.directory, hwork, directory_plain]
  rfl

theorem plainTarget_eq (kind : ScanKind) :
    plainTarget kind = pathOf ["w", kind.directory, plainHash, "e.proto"] :=
  join_pathOf (isOrdinary_plain kind (by simp)) (isOrdinary_plain kind (List.Subset.refl _) _ (by simp))

theorem isSelected_plain (b : Bytes) (h : filter.passes "e.proto" = true) :
    IsSelected filter (plainEntry b) := by
  have hschema : isSchemaName "e.proto" = true := by cbv
  have henclosed : enclosedPath? "e.proto" = some ⟨"e.proto"⟩ := by cbv
  refine ⟨hschema, fun (hname : IsUnsafe "e.proto") => ?_, h⟩
  rw [enclosedPath?_eq, if_pos hname] at henclosed
  cases henclosed

theorem filterFor_thorough (kind : ScanKind) (archive : Path) : ∃ filter,
    filterFor thoroughConfig.scan kind (plainPackage archive).coordinate.packageId = .ok filter ∧
      ∀ b, selectedEntries filter [plainEntry b] = [plainEntry b] := by
  obtain ⟨filter, hfilter, hpasses⟩ : ∃ filter,
      filterFor thoroughConfig.scan kind (plainPackage archive).coordinate.packageId = .ok filter ∧
        filter.passes "e.proto" = true := by
    cases kind <;> exact ⟨_, rfl, by cbv⟩
  exact ⟨filter, hfilter, fun b => by simp [selectedEntries, isSelected_plain b hpasses]⟩

theorem extractions_plain (archive : Path) (b : Bytes) :
    extractions thoroughConfig (plainPackage archive) [plainEntry b] =
      [⟨.dependency, plainEntry b⟩, ⟨.importOnly, plainEntry b⟩] := by
  have hscan : ∀ kind, scanExtractions thoroughConfig (plainPackage archive) [plainEntry b] kind =
      [⟨kind, plainEntry b⟩] := by
    intro kind
    obtain ⟨filter, hfilter, hselected⟩ := filterFor_thorough kind archive
    rw [scanExtractions, hfilter]
    dsimp only
    rw [hselected]
    rfl
  have hkinds : scanKinds thoroughConfig (plainPackage archive) = [.dependency, .importOnly] := rfl
  rw [extractions, hkinds, List.flatMap_cons, List.flatMap_cons, List.flatMap_nil, hscan, hscan]
  rfl

theorem hasPlainNames_plain (b : Bytes) : HasPlainNames [plainEntry b] := by
  have hpieces : Path.pieces "e.proto" = ["e.proto"] := by decide +kernel
  refine ⟨(List.nodup_singleton (plainEntry b).name).sublist ?_, fun x hx _ => ?_⟩
  · exact (List.filter_sublist (l := [plainEntry b])).map _
  · obtain rfl := List.mem_singleton.mp hx
    change ∀ s ∈ Path.pieces "e.proto", Path.IsOrdinary s
    rw [hpieces]
    exact isOrdinary_plain .dependency (by simp)

theorem names_plain {l : Location} (hopens : d.Opens (plainDirectory kind) l) :
    d.Names (plainTarget kind) (l ++ ["e.proto"]) false := by
  refine hopens.names_join (by simp [plainDirectory, pathOf]) (isFileName_plain kind _ (by simp)) ?_
  change checkText (plainTarget kind).text = .ok ()
  rw [plainTarget_eq]
  cases kind <;> decide

/-- The entry is extracted where the directory opens, unless a link lies there. -/
theorem leads_plain {l k : Location} (hopens : d.Opens (plainDirectory kind) l)
    (hlink : ∀ t, d.get? (l ++ ["e.proto"]) ≠ some (.link t)) (h : d.Leads (plainTarget kind) k) :
    k = l ++ ["e.proto"] := by
  have hordinary : ∀ s ∈ ["e.proto"], Path.IsOrdinary s := isOrdinary_plain kind (by simp)
  refine Leads.below ⟨_, hopens.follows⟩ h ?_ hordinary fun ps t hps => ?_
  · exact Path.components_join_name (by simp [plainDirectory, pathOf]) (hordinary _ (by simp))
  · rcases List.prefix_cons_iff.mp hps with rfl | ⟨rest, rfl, hrest⟩
    · obtain ⟨m, hm⟩ := hopens.directory
      simp [hm]
    · rw [List.prefix_nil.mp hrest]
      exact hlink t

theorem not_holdsBytes_plain {l : Location} {x : Option Entry}
    (hopens : d.Opens (plainDirectory kind) l) (hx : d.get? (l ++ ["e.proto"]) = x) (hlink : ∀ t, x ≠ some (.link t))
    (hfile : ∀ m, x ≠ some (.file (.bytes b) m)) : ¬ d.HoldsBytes (plainTarget kind) b := by
  subst hx
  rintro ⟨k, m, hk, hholds⟩
  obtain rfl := leads_plain hopens hlink hk
  exact hfile m hholds

/-- What an extraction of the entry changes. -/
structure Extended (kind : ScanKind) (b : Bytes) (l : Location) (d d' : Disk) : Prop where
  grown : d.Grown d'
  extended : ∃ m, d'.get? =
    Function.update d.get? (l ++ ["e.proto"]) (some (.file (.bytes (extractedBytes ["x"] kind b).1) m))

theorem Extended.hasFile {l : Location} (h : Extended kind b l d d') :
    View.HasFile d'.get? (l ++ ["e.proto"]) := by
  obtain ⟨m, hget⟩ := h.extended
  exact ⟨_, m, by rw [hget, Function.update_self]⟩

/-- The walk through an archive finds what is selected. -/
theorem walk_plain (hopen : openArchive d archive = .ok listed) (filter : Scan.Filter) :
    ∃ findings, (plainPackage archive).walk d filter =
      .ok ((selectedEntries filter listed).map fun x => .archived archive ⟨x.name⟩, findings) := by
  obtain ⟨⟨entries, findings⟩, hwalk⟩ :
      ∃ selection, (plainPackage archive).walk d filter = .ok selection := by
    change ∃ selection, walkArchive d archive filter (plainPackage archive).coordinate = .ok selection
    rw [walkArchive, hopen]
    exact ⟨_, rfl⟩
  obtain ⟨listed', hlisted, rfl, -⟩ := walkArchive_selected hwalk
  obtain rfl := Except.ok.inj (hopen.symm.trans hlisted)
  exact ⟨findings, hwalk⟩

/-- The entry is extracted into a directory that is there. -/
theorem collectPackage_plain {l : Location} (hopen : openArchive d archive = .ok [plainEntry b])
    (hopens : d.Opens (plainDirectory kind) l)
    (hfree : d.get? (l ++ ["e.proto"]) = none ∨ View.HasFile d.get? (l ++ ["e.proto"]))
    (found : Collected) : ∃ found' d',
      outcome (collectPackage thoroughConfig kind found (plainPackage archive)) d = (.ok found', d') ∧
        Extended kind b l d d' := by
  obtain ⟨filter, hfilter, hselected⟩ := filterFor_thorough kind archive
  have hwork : thoroughConfig.workDir d = ⟨"/w"⟩ := absolutize_pathOf d ["w"]
  obtain ⟨findings, hwalk⟩ := walk_plain hopen filter
  rw [hselected] at hwalk
  have hread : readEntry d archive ⟨"e.proto"⟩ = .ok b := by
    rw [readEntry_eq hopen]
    cbv
  have htext : checkText (plainDirectory kind).text = .ok () := by cases kind <;> decide
  have hparent : (plainTarget kind).parent? = some (plainDirectory kind) := by
    rw [plainTarget_eq]
    exact parent?_pathOf (l := ["w", kind.directory, plainHash]) (s := "e.proto")
      (isOrdinary_plain kind (List.Subset.refl _))
  have hmake := makeDirectories_of_opens hopens htext
  have hwrite := writeFile_ok (extractedBytes ["x"] kind b).1 (names_plain hopens) hfree
  have hextended := get?_put_eq (d := d) (l := l ++ ["e.proto"]) (by simp)
    (.file (.bytes (extractedBytes ["x"] kind b).1) (d.modeAt (l ++ ["e.proto"])))
  generalize d.put _ _ = d' at hwrite hextended
  have hgrown := (grows_writeFile _ _).of_outcome hwrite
  obtain ⟨found', hentry⟩ : ∃ found', outcome (collectEntry thoroughConfig kind
      (plainPackage archive).coordinate (plainDirectory kind) (found.report findings)
      (.archived archive ⟨"e.proto"⟩)) d = (.ok found', d') :=
    ⟨_, outcome_bind_eq_ok.mpr ⟨_, _, extract_ok hread hparent hmake hwrite, rfl⟩⟩
  rw [outcome_collectPackage, hfilter]
  dsimp only
  rw [hwalk]
  dsimp only
  rw [directoryFor, hwork, directory_plain, List.map_cons, List.foldlM_cons]
  exact ⟨found', d', outcome_bind_eq_ok.mpr ⟨found', d', hentry, rfl⟩, hgrown, _, hextended⟩

/-- Nothing is extracted from an archive without entries. -/
theorem collectPackage_empty (hopen : openArchive d archive = .ok []) (found : Collected) :
    ∃ found', outcome (collectPackage thoroughConfig kind found (plainPackage archive)) d =
      (.ok found', d) := by
  obtain ⟨filter, hfilter, -⟩ := filterFor_thorough kind archive
  obtain ⟨findings, hwalk⟩ := walk_plain hopen filter
  have hnothing : selectedEntries filter [] = [] := by simp [selectedEntries]
  rw [hnothing] at hwalk
  rw [outcome_collectPackage, hfilter]
  dsimp only
  rw [hwalk]
  exact ⟨_, rfl⟩

/-- The scan for imports comes after the one for dependencies. -/
theorem collect_plain (hown : collectLocal d ⟨"/s"⟩ = .ok {})
    (hfirst : outcome (collectPackage thoroughConfig .dependency {} (plainPackage archive)) d =
      (.ok found, d'))
    (hsecond : outcome (collectPackage thoroughConfig .importOnly found (plainPackage archive)) d' =
      (.ok found', d'')) :
    outcome (collect thoroughConfig [plainPackage archive]) d = (.ok found', d'') := by
  have hsource : thoroughConfig.sourceDir d = ⟨"/s"⟩ := absolutize_pathOf d ["s"]
  have hscans : scans thoroughConfig [plainPackage archive] =
      [(.dependency, plainPackage archive), (.importOnly, plainPackage archive)] := rfl
  rw [outcome_collect, hsource, hown, hscans]
  dsimp only
  rw [collectScans, List.foldlM_cons]
  exact outcome_bind_eq_ok.mpr ⟨found, d', hfirst, outcome_bind_eq_ok.mpr ⟨found', d'', hsecond, rfl⟩⟩

/-- Where the directories open and the archive is apart from them, both scans extract the entry, the
one for imports last. -/
theorem collect_twice {top : ScanKind → Location} (hown : collectLocal d ⟨"/s"⟩ = .ok {})
    (hread : d.read archive = .ok (.archive [plainEntry b]))
    (hopens : ∀ kind, d.Opens (plainDirectory kind) (top kind))
    (hfree : ∀ kind, d.get? (top kind ++ ["e.proto"]) = none) :
    ∃ found d', outcome (collect thoroughConfig [plainPackage archive]) d = (.ok found, d') ∧
      d.Grown d' ∧ (∀ kind, View.HasFile d'.get? (top kind ++ ["e.proto"])) ∧
        ∃ m, d'.get? (top .importOnly ++ ["e.proto"]) = some (.file (.bytes b) m) := by
  have hopen : openArchive d archive = .ok [plainEntry b] := Disk.bind_eq_ok.mpr ⟨_, hread, rfl⟩
  obtain ⟨found₁, d₁, hfirst, hextended⟩ :=
    collectPackage_plain hopen (hopens .dependency) (Or.inl (hfree .dependency)) {}
  obtain ⟨m, hget⟩ := hextended.extended
  have hopen₁ : openArchive d₁ archive = .ok [plainEntry b] := by
    obtain ⟨l, n, hlocate, hl⟩ := read_eq_ok_iff.mp hread
    have hapart : l ≠ top .dependency ++ ["e.proto"] := by
      rintro rfl
      simp [hfree] at hl
    have hl₁ : d₁.get? l = some (.file (.archive [plainEntry b]) n) := by
      rw [hget, Function.update_of_ne hapart, hl]
    exact Disk.bind_eq_ok.mpr
      ⟨_, read_eq_ok_iff.mpr ⟨l, n, hextended.grown.locate hlocate, hl₁⟩, rfl⟩
  have hfree₁ : d₁.get? (top .importOnly ++ ["e.proto"]) = none ∨
      View.HasFile d₁.get? (top .importOnly ++ ["e.proto"]) := by
    rw [hget]
    by_cases h : top .importOnly ++ ["e.proto"] = top .dependency ++ ["e.proto"]
    · exact Or.inr ⟨_, _, by rw [h, Function.update_self]⟩
    · exact Or.inl (by rw [Function.update_of_ne h, hfree])
  obtain ⟨found, d', hsecond, hextended'⟩ :=
    collectPackage_plain hopen₁ (hextended.grown.opens (hopens .importOnly)) hfree₁ found₁
  refine ⟨found, d', collect_plain hown hfirst hsecond, hextended.grown.trans hextended'.grown,
    fun kind => ?_, ?_⟩
  · cases kind with
    | dependency => exact hextended'.grown.files _ hextended.hasFile
    | importOnly => exact hextended'.hasFile
  · obtain ⟨n, hget'⟩ := hextended'.extended
    exact ⟨n, by rw [hget', Function.update_self]; rfl⟩

/-- A disk with an archive somewhere and the directories for what is extracted. -/
def scannedDisk (l : Location) (b : Bytes) : Disk where
  entries := [(["s"], .directory 0o755), (["w"], .directory 0o755),
    (["w", "protos-from-dependencies"], .directory 0o755),
    (["w", "protos-from-dependencies", plainHash], .directory 0o755),
    (["w", "proto-imports"], .directory 0o755), (["w", "proto-imports", plainHash], .directory 0o755),
    (l, .file (.archive [plainEntry b]) 0o644)]
  workingDirectory := []

/-- A disk on which the directory for imports is a link to the one for dependencies. -/
def linkedDisk : Disk where
  entries := [(["s"], .directory 0o755), (["t"], .file (.archive [plainEntry [120]]) 0o644),
    (["w"], .directory 0o755), (["w", "protos-from-dependencies"], .directory 0o755),
    (["w", "protos-from-dependencies", plainHash], .directory 0o755),
    (["w", "proto-imports"], .link "protos-from-dependencies")]
  workingDirectory := []

/-- The directory for a package opens at its own place if it is there. -/
theorem opens_of_isProper (hd : d.IsProper) (hdir : d.HasDirectory ["w", kind.directory, plainHash]) :
    d.Opens (plainDirectory kind) ["w", kind.directory, plainHash] := by
  have hcomponents : (plainDirectory kind).components =
      .root :: ["w", kind.directory, plainHash].map .name :=
    components_pathOf (isOrdinary_plain kind (by simp))
  exact ⟨(hd.follows_canonical hcomponents hdir).mono (Nat.zero_le maxLinks), hdir⟩

theorem opens_linkedDisk (kind : ScanKind) :
    linkedDisk.Opens (plainDirectory kind) ["w", "protos-from-dependencies", plainHash] := by
  have hproper : linkedDisk.IsProper := isProper_of_entries (by decide) (by decide)
  have hdir : linkedDisk.HasDirectory ["w", "protos-from-dependencies", plainHash] := ⟨0o755, by cbv⟩
  cases kind with
  | dependency => exact opens_of_isProper hproper hdir
  | importOnly =>
    have hkind : linkedDisk.HasDirectory ["w", "protos-from-dependencies"] := ⟨0o755, by cbv⟩
    have hlink : linkedDisk.get? (["w"] ++ ["proto-imports"]) =
        some (.link "protos-from-dependencies") := by decide
    have hopens : linkedDisk.Opens (pathOf ["w", "proto-imports"]) ["w", "protos-from-dependencies"] :=
      .of_link hproper hlink (by decide) hkind
    have hcomponents : (plainDirectory .importOnly).components =
        (pathOf ["w", "proto-imports"]).components ++ [plainHash].map .name := by
      rw [plainDirectory, components_pathOf (isOrdinary_plain .importOnly (by simp)),
        components_pathOf (isOrdinary_plain .importOnly (by simp [ScanKind.directory]))]
      rfl
    refine hopens.below hcomponents (fun s hs => ?_) fun ps hps => ?_
    · exact isFileName_plain .importOnly s (by simp_all)
    · rcases List.prefix_cons_iff.mp hps with rfl | ⟨rest, rfl, hrest⟩
      · exact hkind
      · rwa [List.prefix_nil.mp hrest]

/-- The bytes under which an entry that is the option is extracted, and what is found in it. -/
theorem bytes_mentioning :
    (Extraction.mk .dependency (plainEntry [120])).bytes thoroughConfig.scan.stripOptions = [10] ∧
      (Extraction.mk .importOnly (plainEntry [120])).bytes thoroughConfig.scan.stripOptions = [120] ∧
      (Extraction.mk .dependency (plainEntry [120])).findings (plainPackage ⟨"/t"⟩)
        thoroughConfig.scan.stripOptions = [.legacyOptionStripped "e.proto" "x" "g:a"] := by
  have hdependency := extractedBytes_eq ⟨.dependency, plainEntry [120]⟩ thoroughConfig.scan.stripOptions
  have himport := extractedBytes_eq ⟨.importOnly, plainEntry [120]⟩ thoroughConfig.scan.stripOptions
  have hstripped : extractedBytes ["x"] .dependency [120] = ([10], ["x"]) := by cbv
  have hname : (plainPackage ⟨"/t"⟩).coordinate.uniqueName = "g:a" := by decide
  obtain ⟨hbytes, hnames⟩ := Prod.mk.inj (hdependency.symm.trans hstripped)
  refine ⟨hbytes, (Prod.mk.inj himport).1.symm, ?_⟩
  rw [if_pos rfl] at hnames
  rw [Extraction.findings, hnames, hname]
  rfl

/-- The entry is extracted in both scans, without its only line in the one for dependencies. -/
theorem scanned_twice_extracted : ∃ found d',
    openArchive (scannedDisk ["t"] [120]) ⟨"/t"⟩ = .ok [plainEntry [120]] ∧
      HasPlainNames [plainEntry [120]] ∧
      outcome (collect thoroughConfig [plainPackage ⟨"/t"⟩]) (scannedDisk ["t"] [120]) =
        (.ok found, d') ∧
      (∀ w ∈ extractions thoroughConfig (plainPackage ⟨"/t"⟩) [plainEntry [120]],
        ¬ d'.SamePlace (w.target (plainPackage ⟨"/t"⟩)
          (thoroughConfig.workDir (scannedDisk ["t"] [120]))) ⟨"/t"⟩) ∧
      d'.HoldsBytes (plainTarget .dependency) [10] ∧ d'.HoldsBytes (plainTarget .importOnly) [120] ∧
      found.diagnostics.withCode .legacyOptionStripped =
        [.legacyOptionStripped "e.proto" "x" "g:a"] := by
  have hproper : (scannedDisk ["t"] [120]).IsProper := isProper_of_entries (by decide) (by decide)
  have hopens : ∀ kind : ScanKind, (scannedDisk ["t"] [120]).Opens (plainDirectory kind)
      ["w", kind.directory, plainHash] := fun kind =>
    opens_of_isProper hproper (by cases kind <;> exact ⟨0o755, by cbv⟩)
  have hread : (scannedDisk ["t"] [120]).read ⟨"/t"⟩ = .ok (.archive [plainEntry [120]]) := by cbv
  have hown : collectLocal (scannedDisk ["t"] [120]) ⟨"/s"⟩ = .ok {} := by cbv
  obtain ⟨found, d', h, hgrown, hfiles, -⟩ := collect_twice hown hread hopens
    fun kind => by cases kind <;> decide
  have hleads : ∀ kind k, d'.Leads (plainTarget kind) k →
      k = ["w", kind.directory, plainHash, "e.proto"] := by
    refine fun kind k => leads_plain (hgrown.opens (hopens kind)) fun t ht => ?_
    obtain ⟨c, m, hfile⟩ := hfiles kind
    rw [hfile] at ht
    cases ht
  have harchive : d'.Leads ⟨"/t"⟩ ["t"] := by
    have hlocate : (scannedDisk ["t"] [120]).locate ⟨"/t"⟩ true = .ok ["t"] := by cbv
    exact Leads.grown (.of_locate hlocate) hgrown
  have hapart : ∀ w ∈ extractions thoroughConfig (plainPackage ⟨"/t"⟩) [plainEntry [120]],
      ¬ d'.SamePlace (w.target (plainPackage ⟨"/t"⟩)
        (thoroughConfig.workDir (scannedDisk ["t"] [120]))) ⟨"/t"⟩ := by
    rw [extractions_plain]
    rintro w hw ⟨k, hk, hk'⟩
    obtain rfl := hk'.unique harchive
    simp only [List.mem_cons, List.not_mem_nil, or_false] at hw
    rcases hw with rfl | rfl
    · rw [target_plain] at hk
      simpa using hleads _ _ hk
    · rw [target_plain] at hk
      simpa using hleads _ _ hk
  have hopen : openArchive (scannedDisk ["t"] [120]) ⟨"/t"⟩ = .ok [plainEntry [120]] :=
    Disk.bind_eq_ok.mpr ⟨_, hread, rfl⟩
  have hnames := hasPlainNames_plain [120]
  obtain ⟨hholds, -, -, -, -, -, hfindings⟩ := collect_extracts rfl hopen hnames h hapart
  obtain ⟨hdependency, himport, hfound⟩ := bytes_mentioning
  refine ⟨found, d', hopen, hnames, h, hapart, ?_, ?_, ?_⟩
  · have hfirst := hholds [] _ _ (extractions_plain _ _) fun v hv => ?_
    · rwa [target_plain, hdependency] at hfirst
    · obtain rfl := List.mem_singleton.mp hv
      rw [target_plain, target_plain]
      rintro ⟨k, hk, hk'⟩
      have hkinds := (hleads _ _ hk).symm.trans (hleads _ _ hk')
      simp [ScanKind.directory] at hkinds
  · have hlast := hholds [_] _ [] (extractions_plain _ _) (by simp)
    rwa [target_plain, himport] at hlast
  · rw [hfindings, extractions_plain, ← hfound]
    exact List.append_nil _

/-- Both scans of the package succeed, and in the end one extracted file is not as it should be. -/
def IsLost (d : Disk) (archive : Path) (b : Bytes) (kind : ScanKind) : Prop :=
  openArchive d archive = .ok [plainEntry b] ∧ HasPlainNames [plainEntry b] ∧
    ⟨kind, plainEntry b⟩ ∈ extractions thoroughConfig (plainPackage archive) [plainEntry b] ∧
      ∃ found d', outcome (collect thoroughConfig [plainPackage archive]) d = (.ok found, d') ∧
        ¬ d'.HoldsBytes
          ((Extraction.mk kind (plainEntry b)).target (plainPackage archive) (thoroughConfig.workDir d))
          ((Extraction.mk kind (plainEntry b)).bytes thoroughConfig.scan.stripOptions)

/-- Through a link the second scan overwrites what the first one extracted. -/
theorem lost_through_link : IsLost linkedDisk ⟨"/t"⟩ [120] .dependency := by
  have hread : linkedDisk.read ⟨"/t"⟩ = .ok (.archive [plainEntry [120]]) := by cbv
  have hown : collectLocal linkedDisk ⟨"/s"⟩ = .ok {} := by cbv
  obtain ⟨found, d', h, hgrown, -, n, hlast⟩ := collect_twice hown hread opens_linkedDisk
    fun _ => by decide
  refine ⟨Disk.bind_eq_ok.mpr ⟨_, hread, rfl⟩, hasPlainNames_plain [120], ?_, found, d', h, ?_⟩
  · rw [extractions_plain]
    exact List.mem_cons_self
  · rw [target_plain, bytes_mentioning.1]
    exact not_holdsBytes_plain (hgrown.opens (opens_linkedDisk .dependency)) hlast (by simp) (by simp)

/-- An archive without entries: the mark of its directory and nothing else. -/
def emptyArchive : Bytes := [80, 75, 5, 6] ++ List.replicate 18 0

/-- A disk with an archive that lies where its entry is extracted. -/
def overlappingDisk : Disk :=
  scannedDisk ["w", "protos-from-dependencies", plainHash, "e.proto"] emptyArchive

theorem opens_overlappingDisk (kind : ScanKind) :
    overlappingDisk.Opens (plainDirectory kind) ["w", kind.directory, plainHash] := by
  have hproper : overlappingDisk.IsProper := isProper_of_entries (by decide) (by decide)
  exact opens_of_isProper hproper (by cases kind <;> exact ⟨0o755, by cbv⟩)

/-- The archive is overwritten with its entry, and the second scan finds nothing in it. -/
theorem lost_with_archive :
    IsLost overlappingDisk (plainTarget .dependency) emptyArchive .importOnly := by
  have hown : collectLocal overlappingDisk ⟨"/s"⟩ = .ok {} := by cbv
  have hopened : ∀ {d : Disk} {c m}, d.Opens (plainDirectory .dependency)
      ["w", "protos-from-dependencies", plainHash] →
      d.get? ["w", "protos-from-dependencies", plainHash, "e.proto"] = some (.file c m) →
        openArchive d (plainTarget .dependency) = entriesOf c := by
    intro d c m hopens hl
    have hstatus := Names.status (names_plain hopens) hl (by simp)
    rw [openArchive, Disk.read, hstatus]
    rfl
  have hfile : overlappingDisk.get? ["w", "protos-from-dependencies", plainHash, "e.proto"] =
      some (.file (.archive [plainEntry emptyArchive]) 0o644) := by cbv
  have hopen := hopened (opens_overlappingDisk .dependency) hfile
  obtain ⟨found₁, d', hfirst, hextended⟩ := collectPackage_plain hopen
    (opens_overlappingDisk .dependency) (Or.inr ⟨_, _, hfile⟩) {}
  obtain ⟨m, hget⟩ := hextended.extended
  have hopen' : openArchive d' (plainTarget .dependency) = .ok [] := by
    have hkept : (extractedBytes ["x"] .dependency emptyArchive).1 = emptyArchive := by cbv
    have hnothing : entriesOf (.bytes emptyArchive) = .ok [] := by cbv
    have hoverwritten : d'.get? ["w", "protos-from-dependencies", plainHash, "e.proto"] =
        some (.file (.bytes emptyArchive) m) := by
      rw [hget, hkept]
      exact Function.update_self ..
    rw [hopened (hextended.grown.opens (opens_overlappingDisk .dependency)) hoverwritten, hnothing]
  obtain ⟨found, hsecond⟩ := collectPackage_empty hopen' found₁
  refine ⟨hopen, hasPlainNames_plain emptyArchive, ?_, found, d', collect_plain hown hfirst hsecond, ?_⟩
  · rw [extractions_plain]
    exact List.mem_cons_of_mem _ List.mem_cons_self
  · rw [target_plain]
    have hnone : d'.get? (["w", "proto-imports", plainHash] ++ ["e.proto"]) = none := by
      rw [hget, Function.update_of_ne (by decide)]
      decide
    exact not_holdsBytes_plain (hextended.grown.opens (opens_overlappingDisk .importOnly)) hnone
      (by simp) (by simp)

/-- A test run that would scan dependencies alone. -/
def testConfig : Settings.Config :=
  { thoroughConfig with test := true, scan := { thoroughConfig.scan with imports := .nothing } }

/-- A test run scans no dependencies, whatever is selected. -/
theorem lost_in_test_run :
    testConfig.scan.dependencies.selects (plainPackage ⟨"/t"⟩).coordinate.packageId = true ∧
      ∃ found, outcome (collect testConfig [plainPackage ⟨"/t"⟩]) (scannedDisk ["t"] [120]) =
          (.ok found, scannedDisk ["t"] [120]) ∧
        ∀ b, ¬ (scannedDisk ["t"] [120]).HoldsBytes (plainTarget .dependency) b := by
  have hproper : (scannedDisk ["t"] [120]).IsProper := isProper_of_entries (by decide) (by decide)
  have hopens : (scannedDisk ["t"] [120]).Opens (plainDirectory .dependency)
      ["w", "protos-from-dependencies", plainHash] := opens_of_isProper hproper ⟨0o755, by cbv⟩
  have hown : collectLocal (scannedDisk ["t"] [120]) ⟨"/s"⟩ = .ok {} := by cbv
  have hsource : testConfig.sourceDir (scannedDisk ["t"] [120]) = ⟨"/s"⟩ := absolutize_pathOf _ ["s"]
  have hscans : scans testConfig [plainPackage ⟨"/t"⟩] = [] := rfl
  have hnone : (scannedDisk ["t"] [120]).get?
      (["w", "protos-from-dependencies", plainHash] ++ ["e.proto"]) = none := by decide
  refine ⟨rfl, {}, ?_, ?_⟩
  · rw [outcome_collect, hsource, hown, hscans]
    rfl
  · exact fun b => not_holdsBytes_plain hopens hnone (by simp) (by simp)

/-- What is selected need not lie there in the end: a later scan may overwrite it or find the archive
overwritten, and a test run leaves dependencies out. -/
theorem selected_need_not_be_extracted : IsLost linkedDisk ⟨"/t"⟩ [120] .dependency ∧
    IsLost overlappingDisk (plainTarget .dependency) emptyArchive .importOnly ∧
    testConfig.scan.dependencies.selects (plainPackage ⟨"/t"⟩).coordinate.packageId = true ∧
      ∃ found, outcome (collect testConfig [plainPackage ⟨"/t"⟩]) (scannedDisk ["t"] [120]) =
          (.ok found, scannedDisk ["t"] [120]) ∧
        ∀ b, ¬ (scannedDisk ["t"] [120]).HoldsBytes (plainTarget .dependency) b :=
  ⟨lost_through_link, lost_with_archive, lost_in_test_run⟩

end ProtoForge.Sources
