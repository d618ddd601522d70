import ProtoForge.Proofs.Files.Rebuilding
import ProtoForge.Proofs.Staging.Roots

/-!
# Roots that are kept

No root is replaced silently. The file of a root is in the view under the name
of the root, or a finding tells that another copy hides it: for a root below
an include directory the finding of the walk that met it, for any other root
the one made when the root was added.
-/
namespace ProtoForge.Staging

open Files ProtoForge.Path Sources

/-- The view has a file of a name, and its bytes are those of the source, unless a finding names
the source as a hidden copy. -/
def Staged.AccountsFor (s : Staged) (name : String) (source : Path) (own : Content) : Prop :=
  ∃ f, s.view.get? name = some f ∧
    (f.bytes = own.toBytes ∨
      ∃ hidden, .shadowed name hidden ∈ s.diagnostics ∧ (Path.mk hidden).same source = true)

/-- What is staged stays as it is, and so do the findings. -/
structure Staged.Advances (s s' : Staged) : Prop where
  view : ∀ name f, s.view.get? name = some f → s'.view.get? name = some f
  diagnostics : s.diagnostics <+: s'.diagnostics

/-- If an include directory contains a root, then the root lies straight below the first one. -/
def IsInPlace (d : Disk) (includes : IncludeDirectories) (root : SchemaFile) : Prop :=
  ∀ dir, includes.containing? root.source = some dir →
    dir.same root.source = false ∧ IsStraight d includes root

variable {d : Disk} {includes imports : IncludeDirectories} {roots : List SchemaFile}
  {root : SchemaFile} {source dir : Path} {name : String} {s s' s'' : Staged} {own : Content}
  {dirs : List Path}

namespace Staged

theorem Advances.refl (s : Staged) : s.Advances s := ⟨fun _ _ hf => hf, List.prefix_rfl⟩

theorem Advances.trans (h : s.Advances s') (h' : s'.Advances s'') : s.Advances s'' :=
  ⟨fun name f hf => h'.view name f (h.view name f hf), h.diagnostics.trans h'.diagnostics⟩

theorem Advances.accountsFor (h : s.Advances s') (hs : s.AccountsFor name source own) :
    s'.AccountsFor name source own := by
  obtain ⟨f, hf, hbytes⟩ := hs
  refine ⟨f, h.view name f hf, hbytes.imp_right ?_⟩
  rintro ⟨hidden, hmem, hsame⟩
  exact ⟨hidden, h.diagnostics.subset hmem, hsame⟩

theorem advances_report (s : Staged) (finding : Diagnostic) : s.Advances (s.report finding) :=
  ⟨fun _ _ hf => hf, List.prefix_append _ _⟩

theorem rootNames_addRootName (s : Staged) (name : String) :
    (s.addRootName name).rootNames = addOnce s.rootNames name := by
  rw [addRootName, addOnce]
  split_ifs <;> rfl

theorem advances_addRootName (s : Staged) (name : String) : s.Advances (s.addRootName name) := by
  rw [addRootName]
  split_ifs
  · exact .refl s
  · exact ⟨fun _ _ hf => hf, List.prefix_rfl⟩

/-- A root outside every include directory, put where no file has its name. -/
def addCopy (s : Staged) (name : String) (source : Path) (content : Content) : Staged :=
  match s.view.get? name with
  | some existing =>
      if existing.bytes = content.toBytes then s else s.report (.shadowed name source.text)
  | none => { s with view := s.view.insert name content.toBytes }

theorem advances_addCopy (s : Staged) (name : String) (source : Path) (content : Content) :
    s.Advances (s.addCopy name source content) := by
  rw [addCopy]
  cases hview : s.view.get? name with
  | some existing =>
    dsimp only
    split_ifs
    · exact .refl s
    · exact advances_report s _
  | none =>
    refine ⟨fun other f hf => ?_, List.prefix_rfl⟩
    have hne : other ≠ name := by
      rintro rfl
      rw [hview] at hf
      cases hf
    rw [View.insert, View.get?_addFile, if_neg hne, hf]

theorem rootNames_addCopy (s : Staged) (name : String) (source : Path) (content : Content) :
    (s.addCopy name source content).rootNames = s.rootNames := by
  rw [addCopy]
  split
  · split_ifs <;> rfl
  · rfl

theorem addCopy_accountsFor (s : Staged) (name : String) (source : Path) (content : Content) :
    (s.addCopy name source content).AccountsFor name source content := by
  rw [addCopy]
  cases hview : s.view.get? name with
  | some existing =>
    dsimp only
    split_ifs with hbytes
    · exact ⟨existing, hview, Or.inl hbytes⟩
    · exact ⟨existing, hview, Or.inr ⟨source.text, by simp [report], by simp [Path.same]⟩⟩
  | none =>
    refine ⟨⟨content.toBytes, none⟩, ?_, Or.inl rfl⟩
    rw [View.insert, View.get?_addFile, if_pos rfl]

/-- A root outside every include directory is accounted for when it is added. -/
theorem addStray_spec (h : s.addStray d source = .ok s') :
    s.Advances s' ∧ s'.rootNames = addOnce s.rootNames (source.fileName?.getD "") ∧
      .rootNotUnderInclude source.text (source.fileName?.getD "") ∈ s'.diagnostics ∧
      ∀ own, d.read source = .ok own → s'.AccountsFor (source.fileName?.getD "") source own := by
  rw [addStray] at h
  generalize source.fileName?.getD "" = name at h ⊢
  obtain ⟨content, hread, h⟩ := Disk.bind_eq_ok.mp h
  obtain rfl : (((s.addCopy name source content).report
      (.rootNotUnderInclude source.text name)).addRootName name) = s' := Except.ok.inj h
  have hadded := (advances_report (s.addCopy name source content)
    (.rootNotUnderInclude source.text name)).trans (advances_addRootName _ name)
  refine ⟨(advances_addCopy s name source content).trans hadded, ?_, ?_, fun own hown => ?_⟩
  · rw [rootNames_addRootName, ← rootNames_addCopy s name source content]
    rfl
  · exact (advances_addRootName _ name).diagnostics.subset (by simp [report])
  · obtain rfl := Except.ok.inj (hown.symm.trans (Disk.mapError_eq_ok.mp hread))
    exact hadded.accountsFor (addCopy_accountsFor s name source own)

/-- A root adds its name once. If no include directory contains it, it is reported, and it is
accounted for. -/
theorem addRoot_spec (h : s.addRoot d includes root = .ok s') :
    s.Advances s' ∧ s'.rootNames = addOnce s.rootNames (rootName includes root) ∧
      (includes.containing? root.source = none →
        .rootNotUnderInclude root.source.text (rootName includes root) ∈ s'.diagnostics ∧
        ∀ own, d.read root.source = .ok own →
          s'.AccountsFor (rootName includes root) root.source own) := by
  rw [addRoot] at h
  rw [rootName]
  cases hdir : includes.containing? root.source with
  | some dir =>
    rw [hdir] at h
    obtain rfl := Except.ok.inj h
    exact ⟨advances_addRootName s _, rootNames_addRootName s _, fun hnone => by cases hnone⟩
  | none =>
    rw [hdir] at h
    obtain ⟨hadvances, hnames, hfinding, haccounts⟩ := addStray_spec h
    exact ⟨hadvances, hnames, fun _ => ⟨hfinding, haccounts⟩⟩

theorem addRoots_spec (h : roots.foldlM (addRoot d includes) s = .ok s') :
    s.Advances s' ∧ s'.rootNames = (roots.map (rootName includes)).foldl addOnce s.rootNames ∧
      ∀ root ∈ roots, includes.containing? root.source = none →
        .rootNotUnderInclude root.source.text (rootName includes root) ∈ s'.diagnostics ∧
        ∀ own, d.read root.source = .ok own →
          s'.AccountsFor (rootName includes root) root.source own := by
  induction roots generalizing s with
  | nil =>
    obtain rfl := Except.ok.inj h
    exact ⟨.refl s, rfl, by simp⟩
  | cons root roots ih =>
    rw [List.foldlM_cons] at h
    obtain ⟨s₁, hfirst, hrest⟩ := Disk.bind_eq_ok.mp h
    obtain ⟨hadvances, hnames, hstray⟩ := addRoot_spec hfirst
    obtain ⟨hadvances', hnames', hstrays⟩ := ih hrest
    refine ⟨hadvances.trans hadvances', ?_, ?_⟩
    · rw [hnames', hnames]
      rfl
    · intro r hr hnone
      rcases List.mem_cons.mp hr with rfl | hr
      · obtain ⟨hfinding, haccounts⟩ := hstray hnone
        exact ⟨hadvances'.diagnostics.subset hfinding,
          fun own hown => hadvances'.accountsFor (haccounts own hown)⟩
      · exact hstrays r hr hnone

end Staged

/-- Every file below one of the directories is accounted for. -/
theorem IsUnion.accountsFor {l : Location} {names : List String} {mode : ℕ} (hd : d.IsProper)
    (hunion : IsUnion d dirs s) (hdir : dir ∈ dirs) (hwalk : ∃ entries, d.walk dir = .ok entries)
    (hlocate : d.locate dir true = .ok l)
    (hsource : source.components = dir.components ++ names.map .name) (hne : names ≠ [])
    (hfile : d.get? (l ++ names) = some (.file own mode)) :
    s.AccountsFor (ofPieces names) source own := by
  have hnames : ∀ n ∈ names, IsOrdinary n := fun n hn =>
    isOrdinary_of_mem_components (p := source) (by rw [hsource]; simp [hn])
  have hpieces := pieces_ofNames hne hnames
  have hentry : entryBelow? d dir (ofPieces names) = some (.file own mode) := by
    rw [entryBelow?, hlocate]
    dsimp only
    rw [hpieces, hfile]
  have hname : ofPieces names ≠ "" :=
    ((mem_below_pieces hd).mp ⟨names, rfl, hd.mem_below.mpr ⟨hne, hfile⟩⟩).1
  obtain ⟨f, hf⟩ := Option.isSome_iff_exists.mp
    (firstFile?_isSome_iff.mpr ⟨dir, hdir, own, mode, hentry⟩)
  refine ⟨f, (hunion.files _).trans hf, or_iff_not_imp_left.mpr fun hbytes => ?_⟩
  -- the walk meets the file, and reports it as its bytes differ from the copy that is kept
  have honce := meetsOnce hd hwalk
  obtain ⟨e, he, hof, hx⟩ := (honce.mem (ofPieces names) _ hname).mpr hentry
  refine ⟨e.2.path.text, ?_, ?_⟩
  · rw [hunion.diagnostics, List.mem_filterMap]
    refine ⟨e, ?_, ?_⟩
    · obtain ⟨entry, hentry, rfl⟩ : ∃ entry ∈ (d.walk dir).toOption.getD [], (dir, entry) = e := by
        simpa [met] using he
      exact List.mem_flatMap.mpr ⟨dir, hdir, List.mem_map_of_mem hentry⟩
    · rw [finding?, hx]
      simp only [hof, hf, if_neg hbytes]
  · have hpath : e.2.path = dir.below names := by
      rw [honce.path e he (hof ▸ hname), hof, hpieces]
    rw [Path.same, beq_iff_eq, hsource, ← components_below (Disk.text_ne_empty_of_locate hlocate) hnames,
      ← hpath]

/-- No root is replaced silently: the names of the roots are those of the roots in the order of
their first occurrences, a root outside every include directory is reported, and the view has a
file under the name of every root in place, with the bytes of the root unless the root is reported
as a hidden copy. -/
theorem stage_accountsFor_roots (hd : d.IsProper) (h : stage d includes imports roots = .ok s) :
    s.rootNames = (roots.map (rootName includes)).eraseDups ∧
      (∀ root ∈ roots, includes.containing? root.source = none →
        .rootNotUnderInclude root.source.text (rootName includes root) ∈ s.diagnostics) ∧
      ∀ root ∈ roots, ∀ own, d.read root.source = .ok own → IsInPlace d includes root →
        s.rootNames.count (rootName includes root) = 1 ∧
          s.AccountsFor (rootName includes root) root.source own := by
  obtain ⟨laid, hlaid, hroots⟩ := Disk.bind_eq_ok.mp h
  obtain ⟨hadvances, hnames, hstrays⟩ := Staged.addRoots_spec hroots
  have hunion := isUnion_of_overlays hd hlaid
  have hwalks := ((overlays_eq_ok {}).mp hlaid).1
  have hnodup : s.rootNames.Nodup := by
    rw [hnames, hunion.rootNames]
    exact nodup_foldl_addOnce List.nodup_nil _
  refine ⟨by rw [hnames, hunion.rootNames, foldl_addOnce_nil],
    fun root hroot hnone => (hstrays root hroot hnone).1, fun root hroot own hown hplace => ?_⟩
  refine ⟨List.count_eq_one_of_mem hnodup ((stage_rootNames hd h).mpr ⟨root, hroot, rfl⟩), ?_⟩
  cases hcontaining : includes.containing? root.source with
  | none => exact (hstrays root hroot hcontaining).2 own hown
  | some dir =>
    obtain ⟨hdiffers, dir', l, names, hcontaining', hlocate, hsource, hlink⟩ := hplace dir hcontaining
    obtain rfl : dir' = dir := Option.some.inj (hcontaining'.symm.trans hcontaining)
    have hordinary : ∀ n ∈ names, IsOrdinary n := fun n hn =>
      isOrdinary_of_mem_components (p := root.source) (by rw [hsource]; simp [hn])
    obtain ⟨k, mode, hk, hfile⟩ := Disk.read_eq_ok_iff.mp hown
    obtain rfl : k = l ++ names := Disk.Leads.below (.of_locate hlocate) (.of_locate hk) hsource
      hordinary hlink
    have hne : names ≠ [] := by
      rintro rfl
      simp [Path.same, hsource] at hdiffers
    have hdir : dir' ∈ includes.dirs ++ imports.dirs :=
      List.mem_append_left _ (List.mem_of_find?_eq_some hcontaining)
    rw [rootName, hcontaining]
    dsimp only
    rw [Staged.nameBelow_of_components hsource]
    exact hadvances.accountsFor
      (hunion.accountsFor hd hdir (hwalks dir' hdir) hlocate hsource hne hfile)

/-- The copy in the second directory is a root in place. -/
theorem layeredDisk_isInPlace :
    IsInPlace layeredDisk ⟨[⟨"/a"⟩, ⟨"/b"⟩]⟩ ⟨⟨"/b/x"⟩, ⟨"/b"⟩, .project⟩ := by
  have hcontaining : (IncludeDirectories.mk [⟨"/a"⟩, ⟨"/b"⟩]).containing? ⟨"/b/x"⟩ = some ⟨"/b"⟩ := by
    cbv
  intro dir hdir
  obtain rfl : (⟨"/b"⟩ : Path) = dir := Option.some.inj (hcontaining.symm.trans hdir)
  refine ⟨by cbv, ⟨"/b"⟩, ["b"], ["x"], hcontaining, by cbv, by cbv, fun ps t hps => ?_⟩
  rw [← List.mem_inits] at hps
  simp only [List.inits, List.map_cons, List.map_nil, List.mem_cons, List.not_mem_nil, or_false] at hps
  have hb : layeredDisk.get? ["b"] = some (.directory 0o755) := by decide
  have hx : layeredDisk.get? ["b", "x"] = some (.file (.bytes [2]) 0o600) := by decide
  rcases hps with rfl | rfl
  · simp [hb]
  · simp [hx]

/-- A root that another copy hides. -/
theorem layeredDisk_accountsFor_hidden :
    layeredDisk.IsProper ∧
      ∃ s, stage layeredDisk ⟨[⟨"/a"⟩, ⟨"/b"⟩]⟩ ⟨[]⟩ [⟨⟨"/b/x"⟩, ⟨"/b"⟩, .project⟩] = .ok s ∧
        s.rootNames = ["x"] ∧ s.view.get? "x" = some ⟨[1], some 0o644⟩ ∧
        s.AccountsFor "x" ⟨"/b/x"⟩ (.bytes [2]) := by
  obtain ⟨s, hstage, hfile⟩ : ∃ s, stage layeredDisk ⟨[⟨"/a"⟩, ⟨"/b"⟩]⟩ ⟨[]⟩
      [⟨⟨"/b/x"⟩, ⟨"/b"⟩, .project⟩] = .ok s ∧ s.view.get? "x" = some ⟨[1], some 0o644⟩ :=
    ⟨_, by cbv, by cbv⟩
  obtain ⟨hnames, -, hroots⟩ := stage_accountsFor_roots layeredDisk_isProper hstage
  have hname : rootName ⟨[⟨"/a"⟩, ⟨"/b"⟩]⟩ ⟨⟨"/b/x"⟩, ⟨"/b"⟩, .project⟩ = "x" := by cbv
  have hread : layeredDisk.read ⟨"/b/x"⟩ = .ok (.bytes [2]) := by cbv
  obtain ⟨-, haccounts⟩ := hroots _ (List.mem_singleton_self _) _ hread layeredDisk_isInPlace
  rw [hname] at haccounts
  refine ⟨layeredDisk_isProper, s, hstage, ?_, hfile, haccounts⟩
  rw [hnames, List.map_singleton, hname]
  rfl

end ProtoForge.Staging
