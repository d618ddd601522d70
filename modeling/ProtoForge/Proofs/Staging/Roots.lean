import ProtoForge.Proofs.Sources.Gathered
import ProtoForge.Proofs.Staging.Shape

/-!
# Roots in a view

A root is named by what follows the first include directory in its path. The
view names files by where walks meet them, so the two agree as long as the
path of the root goes down from the directory by names only, past no link.
-/
namespace ProtoForge

namespace Path

variable {p : Path} {s : String}

/-- A name among the components of a path. -/
theorem isOrdinary_of_mem_components (h : .name s ∈ p.components) : IsOrdinary s := by
  rw [components_eq] at h
  rcases List.mem_append.mp h with hstart | hbody
  · cases hsplit : p.split.1 <;> simp [hsplit, PathStart.components] at hstart
  · obtain ⟨piece, hmem, hstep⟩ := List.mem_map.mp hbody
    obtain ⟨hpiece, hmoves⟩ := List.mem_filter.mp hmem
    rw [step] at hstep
    split_ifs at hstep with hup
    obtain rfl : piece = s := by simpa using hstep
    exact ⟨by simpa using hmoves, hup, not_mem_of_mem_body hpiece⟩

end Path

namespace Staging

open Files ProtoForge.Path Sources

/-- The name of a root: the path below the first include directory that contains it, or the file
name. -/
def rootName (includes : IncludeDirectories) (root : SchemaFile) : String :=
  match includes.containing? root.source with
  | some dir => Staged.nameBelow dir root.source
  | none => root.source.fileName?.getD ""

/-- A root that lies straight below the include directory that contains it: only names follow in
its path, and nothing on the way is a link. -/
def IsStraight (d : Disk) (includes : IncludeDirectories) (root : SchemaFile) : Prop :=
  ∃ dir l names, includes.containing? root.source = some dir ∧ d.locate dir true = .ok l ∧
    root.source.components = dir.components ++ names.map .name ∧
    ∀ ps t, ps <+: names → d.get? (l ++ ps) ≠ some (.link t)

variable {d : Disk} {includes imports : IncludeDirectories} {roots : List SchemaFile}
  {root : SchemaFile} {p dir : Path} {name other : String} {s s' : Staged}
  {l : Location} {names : List String}

theorem Staged.mem_addRootName :
    name ∈ (s.addRootName other).rootNames ↔ name ∈ s.rootNames ∨ name = other := by
  rw [addRootName]
  split_ifs with hknown
  · rw [List.contains_iff_mem] at hknown
    refine ⟨Or.inl, ?_⟩
    rintro (h | rfl)
    · exact h
    · exact hknown
  · simp

/-- A root adds its name. -/
theorem mem_rootNames_of_addRoot (h : s.addRoot d includes root = .ok s') :
    name ∈ s'.rootNames ↔ name ∈ s.rootNames ∨ name = rootName includes root := by
  rw [Staged.addRoot] at h
  rw [rootName]
  cases hdir : includes.containing? root.source with
  | some dir =>
    rw [hdir] at h
    obtain rfl := Except.ok.inj h
    exact Staged.mem_addRootName
  | none =>
    rw [hdir] at h
    obtain ⟨content, -, h⟩ := Disk.bind_eq_ok.mp h
    obtain rfl := Except.ok.inj h
    rw [Staged.mem_addRootName]
    have hnames : ∀ s₁ : Staged, s₁.rootNames = s.rootNames → ∀ finding,
        (s₁.report finding).rootNames = s.rootNames := fun _ h _ => h
    rw [hnames]
    cases s.view.get? (root.source.fileName?.getD "") with
    | none => rfl
    | some existing =>
      dsimp only
      split_ifs <;> rfl

theorem mem_rootNames_of_addRoots (h : roots.foldlM (Staged.addRoot d includes) s = .ok s') :
    name ∈ s'.rootNames ↔ name ∈ s.rootNames ∨ ∃ root ∈ roots, name = rootName includes root := by
  induction roots generalizing s with
  | nil =>
    obtain rfl := Except.ok.inj h
    simp
  | cons root roots ih =>
    rw [List.foldlM_cons] at h
    obtain ⟨s₁, hfirst, hrest⟩ := Disk.bind_eq_ok.mp h
    rw [ih hrest, mem_rootNames_of_addRoot hfirst]
    simp only [List.mem_cons, exists_eq_or_imp, or_assoc]

/-- The names of the roots, and nothing else. -/
theorem stage_rootNames (hd : d.IsProper) (h : stage d includes imports roots = .ok s) :
    name ∈ s.rootNames ↔ ∃ root ∈ roots, name = rootName includes root := by
  obtain ⟨laid, hlaid, hroots⟩ := Disk.bind_eq_ok.mp h
  rw [mem_rootNames_of_addRoots hroots, (isUnion_of_overlays hd hlaid).rootNames]
  simp

/-- All directories of a stage can be looked up. -/
theorem stage_locates (hd : d.IsProper) (h : stage d includes imports roots = .ok s)
    (hdir : dir ∈ includes.dirs ++ imports.dirs) : ∃ l, d.locate dir true = .ok l := by
  obtain ⟨laid, hlaid, -⟩ := Disk.bind_eq_ok.mp h
  obtain ⟨entries, hwalk⟩ := ((overlays_eq_ok {}).mp hlaid).1 dir hdir
  obtain ⟨l, -, hlocate, -⟩ := hd.walk_eq_ok hwalk
  exact ⟨l, hlocate⟩

/-- The names of all roots are staged just if all of them are provided. -/
theorem stage_roots_staged_iff (hd : d.IsProper) (h : stage d includes imports roots = .ok s) :
    (∀ name ∈ s.rootNames, s.view.contains name = true) ↔
      ∀ root ∈ roots, ProvidesFile d includes imports roots (rootName includes root) := by
  obtain ⟨hfiles, -⟩ := stage_isStaged hd h
  have hcontains : ∀ name, s.view.contains name = true ↔ ProvidesFile d includes imports roots name :=
    hfiles
  constructor
  · intro hall root hroot
    exact (hcontains _).mp (hall _ ((stage_rootNames hd h).mpr ⟨root, hroot, rfl⟩))
  · intro hall name hname
    obtain ⟨root, hroot, rfl⟩ := (stage_rootNames hd h).mp hname
    exact (hcontains _).mpr (hall root hroot)

/-- Nothing is staged under the empty name. -/
theorem not_providesFile_empty (hd : d.IsProper) : ¬ ProvidesFile d includes imports roots "" := by
  rintro (hfirst | ⟨root, -, -, hname⟩)
  · obtain ⟨dir, -, c, m, hx⟩ := firstFile?_isSome_iff.mp hfirst
    rw [entryBelow?] at hx
    cases hlocate : d.locate dir true with
    | error f => simp [hlocate] at hx
    | ok l => simp [hlocate, get?_empty_below hd] at hx
  · rw [fileName?] at hname
    cases hlast : root.source.components.getLast? with
    | none => simp [hlast] at hname
    | some c =>
      rw [hlast] at hname
      cases c with
      | root => cases hname
      | here => cases hname
      | up => cases hname
      | name s =>
        obtain rfl : s = "" := Option.some.inj hname
        exact (isOrdinary_of_mem_components (List.mem_of_getLast? hlast)).ne_empty rfl

/-- What lies below a directory of the stage under the name of a root is staged. -/
theorem providesFile_of_below (hcontaining : includes.containing? root.source = some dir)
    (hlocate : d.locate dir true = .ok l)
    (hsource : root.source.components = dir.components ++ names.map .name) (hne : names ≠ [])
    (hfile : Files.View.HasFile d.get? (l ++ names)) :
    ProvidesFile d includes imports roots (rootName includes root) := by
  left
  have hnames : ∀ s ∈ names, IsOrdinary s := fun s hs =>
    isOrdinary_of_mem_components (p := root.source) (by rw [hsource]; simp [hs])
  obtain ⟨c, m, hx⟩ := hfile
  rw [firstFile?_isSome_iff]
  refine ⟨dir, List.mem_append_left _ (List.mem_of_find?_eq_some hcontaining), c, m, ?_⟩
  rw [rootName, hcontaining, entryBelow?, hlocate]
  dsimp only
  rw [Staged.nameBelow_of_components hsource, pieces_ofNames hne hnames, hx]

/-- A root straight below a directory is staged. -/
theorem IsStraight.providesFile (h : IsStraight d includes root) (hfile : LeadsToFile d root.source)
    (hdirs : ∀ dir ∈ includes.dirs, LeadsToDirectory d dir) :
    ProvidesFile d includes imports roots (rootName includes root) := by
  obtain ⟨dir, l, names, hcontaining, hlocate, hsource, hlink⟩ := h
  obtain ⟨k, hleads, hk⟩ := hfile
  have hnames : ∀ s ∈ names, IsOrdinary s := fun s hs =>
    isOrdinary_of_mem_components (p := root.source) (by rw [hsource]; simp [hs])
  obtain rfl : k = l ++ names := Disk.Leads.below (.of_locate hlocate) hleads hsource hnames hlink
  refine providesFile_of_below hcontaining hlocate hsource ?_ hk
  rintro rfl
  obtain ⟨m, hm, hdir⟩ := hdirs dir (List.mem_of_find?_eq_some hcontaining)
  obtain rfl : m = l := hm.unique (.of_locate hlocate)
  rw [List.append_nil] at hk
  exact Disk.not_hasDirectory_of_hasFile hk hdir

/-- A file under its canonical path is staged. -/
theorem providesFile_of_isCanonicalFile (hd : d.IsProper) (hfile : IsCanonicalFile d root.source)
    (hcontaining : includes.containing? root.source = some dir) (hlocate : d.locate dir true = .ok l)
    (hdir : LeadsToDirectory d dir) : ProvidesFile d includes imports roots (rootName includes root) := by
  obtain ⟨k, hk, hsource⟩ := hfile
  have hstart := startsWith_iff.mp (List.find?_some hcontaining)
  rw [hsource] at hstart
  -- the directory is the canonical path of a location above that of the file
  have hne : dir.components ≠ [] := fun hnil =>
    Disk.text_ne_empty_of_locate hlocate (components_eq_nil_iff.mp hnil)
  obtain ⟨c, rest, hcomponents⟩ := List.exists_cons_of_ne_nil hne
  rw [hcomponents] at hstart
  obtain ⟨rfl, hrest⟩ := List.cons_prefix_cons.mp hstart
  obtain ⟨above, rfl, habove⟩ : ∃ above, above.map Component.name = rest ∧ above <+: k := by
    obtain ⟨more, hmore⟩ := hrest
    obtain ⟨above, names, rfl, habove, -⟩ := List.map_eq_append_iff.mp hmore.symm
    exact ⟨above, habove, List.prefix_append _ _⟩
  obtain ⟨names, rfl⟩ := habove
  obtain ⟨y, hy, hlink⟩ : ∃ y, d.get? above = some y ∧ ∀ t, y ≠ .link t := by
    obtain ⟨c, m, hx⟩ := hk
    by_cases hnames : names = []
    · rw [hnames, List.append_nil] at hx
      exact ⟨_, hx, by simp⟩
    · obtain ⟨m, hm⟩ := hd.rooted.hasDirectory_of_prefix (List.prefix_append above names)
        (by simpa using hnames) (by simp [hx])
      exact ⟨_, hm, by simp⟩
  obtain rfl : l = above := hd.eq_of_locate_canonical hcomponents hy hlink hlocate
  obtain ⟨m, hm, hlDirectory⟩ := hdir
  obtain rfl : m = l := hm.unique (.of_locate hlocate)
  have hbelow : root.source.components = dir.components ++ names.map .name := by
    rw [hsource, hcomponents, List.map_append, List.cons_append]
  refine providesFile_of_below hcontaining hlocate hbelow ?_ hk
  rintro rfl
  rw [List.append_nil] at hk
  exact Disk.not_hasDirectory_of_hasFile hk hlDirectory

end Staging

end ProtoForge
