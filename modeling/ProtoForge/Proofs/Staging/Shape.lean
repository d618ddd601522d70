import ProtoForge.Proofs.Staging.Union

/-!
# The shape of a view

Files and directories of a view come from one walk after the other, and each
name is settled for files and for directories apart. So a view is a tree unless
one directory has a file where another one has a directory.
-/
namespace ProtoForge.Staging

open Files ProtoForge.Path Generation Sources

/-- A name of a view, be it a file or a directory. -/
def View.IsStaged (v : View) (name : String) : Prop :=
  (v.get? name).isSome ∨ (v.directories.get? name).isSome

/-- A view that a directory can hold: nothing is both a file and a directory, and nothing lies
below a file. -/
structure View.IsTree (v : View) : Prop where
  apart : ∀ name, (v.get? name).isSome → ¬ (v.directories.get? name).isSome
  above : ∀ file name, (v.get? file).isSome → v.IsStaged name → ¬ LiesBelow file name

/-- Staging takes a file of a name from a directory, or from a root outside of all. -/
def ProvidesFile (d : Disk) (includes imports : IncludeDirectories) (roots : List SchemaFile)
    (name : String) : Prop :=
  (firstFile? d (includes.dirs ++ imports.dirs) name).isSome ∨
    ∃ root ∈ roots, includes.containing? root.source = none ∧ root.source.fileName? = some name

/-- Staging takes a directory of a name from a directory. -/
def ProvidesDirectory (d : Disk) (includes imports : IncludeDirectories) (name : String) : Prop :=
  (firstMode? d (includes.dirs ++ imports.dirs) name).isSome

/-- The directories that hold a staged name are staged. -/
def View.IsClosed (v : View) : Prop :=
  ∀ parent name, v.IsStaged name → LiesBelow parent name → (v.directories.get? parent).isSome

variable {d : Disk} {includes imports : IncludeDirectories} {roots : List SchemaFile}
  {root : SchemaFile} {dirs : List Path} {p : Path} {name parent : String} {s s' : Staged} {v : View}

theorem View.IsClosed.isTree_iff (h : v.IsClosed) :
    v.IsTree ↔ ∀ name, (v.get? name).isSome → ¬ (v.directories.get? name).isSome := by
  refine ⟨fun htree => htree.apart, fun hapart => ⟨hapart, ?_⟩⟩
  intro file name hfile hname hbelow
  exact hapart file hfile (h file name hname hbelow)

/-- What is above something below a directory is a directory below it. -/
theorem entryBelow?_parent (hd : d.IsProper) {dir : Path} {x : Entry}
    (hx : entryBelow? d dir name = some x) (h : LiesBelow parent name) :
    ∃ m, entryBelow? d dir parent = some (.directory m) := by
  obtain ⟨rest, rfl⟩ := h
  rw [entryBelow?] at hx ⊢
  cases hlocate : d.locate dir true with
  | error f => simp [hlocate] at hx
  | ok l =>
    rw [hlocate] at hx
    dsimp only at hx ⊢
    rw [pieces_append, ← List.append_assoc] at hx
    have hne : l ++ pieces parent ++ pieces rest ≠ l ++ pieces parent := by
      simpa using pieces_ne_nil rest
    exact hd.rooted.hasDirectory_of_prefix (List.prefix_append _ _) hne (by rw [hx]; simp)

theorem firstMode?_isSome_iff :
    (firstMode? d dirs name).isSome ↔ ∃ dir ∈ dirs, ∃ m, entryBelow? d dir name = some (.directory m) := by
  rw [firstMode?, List.findSome?_isSome_iff]
  refine exists_congr fun dir => and_congr_right fun _ => ?_
  cases entryBelow? d dir name with
  | none => simp
  | some x => cases x <;> simp [stagedMode?]

theorem firstFile?_isSome_iff :
    (firstFile? d dirs name).isSome ↔ ∃ dir ∈ dirs, ∃ c m, entryBelow? d dir name = some (.file c m) := by
  rw [firstFile?, List.findSome?_isSome_iff]
  refine exists_congr fun dir => and_congr_right fun _ => ?_
  cases entryBelow? d dir name with
  | none => simp
  | some x => cases x <;> simp [stagedFile?]

/-- Directories laid over each other give a closed view. -/
theorem IsUnion.isClosed (hd : d.IsProper) (h : IsUnion d dirs s) : s.view.IsClosed := by
  intro parent name hname hbelow
  have hsome : ∃ dir ∈ dirs, ∃ x, entryBelow? d dir name = some x := by
    rcases hname with hfile | hdir
    · rw [h.files, firstFile?_isSome_iff] at hfile
      obtain ⟨dir, hdir, c, m, hx⟩ := hfile
      exact ⟨dir, hdir, _, hx⟩
    · rw [h.directories, firstMode?_isSome_iff] at hdir
      obtain ⟨dir, hdir, m, hx⟩ := hdir
      exact ⟨dir, hdir, _, hx⟩
  obtain ⟨dir, hdir, x, hx⟩ := hsome
  rw [h.directories, firstMode?_isSome_iff]
  exact ⟨dir, hdir, entryBelow?_parent hd hx hbelow⟩

/-- A name without a slash has no directories above it. -/
theorem parentNames_of_isOrdinary (hname : IsOrdinary name) : View.parentNames name = [] := by
  have hsingle : name = ofPieces [name] := by simp [ofPieces]
  rw [List.eq_nil_iff_forall_not_mem]
  intro parent hparent
  rw [hsingle, View.mem_parentNames (by simpa using hname)] at hparent
  obtain ⟨ps, rest, hps, hrest, heq, -⟩ := hparent
  have hlength := congrArg List.length heq
  have hps' := List.length_pos_iff.mpr hps
  have hrest' := List.length_pos_iff.mpr hrest
  simp at hlength
  omega

theorem not_liesBelow_of_isOrdinary (hname : IsOrdinary name) : ¬ LiesBelow parent name := by
  rintro ⟨rest, rfl⟩
  exact hname.no_slash (by simp)

/-- What a root may add to a view: a file without directories above it. -/
structure AddsFile (added : String → Prop) (v v' : View) : Prop where
  directories : v'.directories = v.directories
  files : ∀ name, (v'.get? name).isSome ↔ (v.get? name).isSome ∨ added name
  ordinary : ∀ name, added name → IsOrdinary name

@[simp] theorem Staged.view_report (s : Staged) (finding : Diagnostic) :
    (s.report finding).view = s.view := rfl

@[simp] theorem Staged.view_addRootName (s : Staged) (name : String) :
    (s.addRootName name).view = s.view := by
  rw [Staged.addRootName]
  split_ifs <;> rfl

/-- A root outside of all directories is staged under its file name. -/
theorem addStray_addsFile (hd : d.Rooted) (h : s.addStray d p = .ok s') :
    AddsFile (fun name => p.fileName? = some name) s.view s'.view := by
  rw [Staged.addStray] at h
  cases hread : d.read p with
  | error f =>
    rw [hread] at h
    cases h
  | ok content =>
    obtain ⟨l, hlocate, hl⟩ := Disk.hasFile_of_read hread
    obtain ⟨name, hname, hordinary⟩ := Disk.fileName?_of_hasFile hd hlocate hl
    have hadded : ∀ v : View, v.directories = s.view.directories →
        (∀ other, (v.get? other).isSome ↔ (s.view.get? other).isSome ∨ other = name) →
        AddsFile (fun name => p.fileName? = some name) s.view v := by
      intro v hdirectories hfiles
      refine ⟨hdirectories, fun other => ?_, fun other hother => ?_⟩
      · rw [hfiles, hname, Option.some.injEq, eq_comm (a := name)]
      · obtain rfl : name = other := by simpa [hname] using hother
        exact hordinary
    simp only [hread, hname, Option.getD_some, Except.mapError] at h
    cases hold : s.view.get? name with
    | some old =>
      have hview : s'.view = s.view := by
        simp only [hold] at h
        rw [← Except.ok.inj h]
        split_ifs <;> simp
      rw [hview]
      refine hadded s.view rfl fun other => ?_
      constructor
      · exact Or.inl
      · rintro (hother | rfl)
        · exact hother
        · rw [hold]; rfl
    | none =>
      have hview : s'.view = s.view.insert name content.toBytes := by
        simp only [hold] at h
        rw [← Except.ok.inj h]
        simp
      rw [hview, View.insert]
      refine hadded _ (View.directories_addFile fun parent hparent => ?_) fun other => ?_
      · rw [parentNames_of_isOrdinary hordinary] at hparent
        cases hparent
      · rw [View.get?_addFile]
        split_ifs with hother
        · simp [hother]
        · simp [hother]

/-- What the roots add to a view. -/
theorem addRoots_addsFile (hd : d.Rooted) (h : roots.foldlM (Staged.addRoot d includes) s = .ok s') :
    AddsFile (fun name => ∃ root ∈ roots, includes.containing? root.source = none ∧
      root.source.fileName? = some name) s.view s'.view := by
  induction roots generalizing s with
  | nil =>
    obtain rfl : s = s' := Except.ok.inj h
    exact ⟨rfl, fun _ => by simp, fun _ hname => by simp at hname⟩
  | cons root roots ih =>
    rw [List.foldlM_cons, Staged.addRoot] at h
    cases hdir : includes.containing? root.source with
    | some dir =>
      rw [hdir] at h
      have hrest := ih h
      rw [Staged.view_addRootName] at hrest
      simpa [hdir] using hrest
    | none =>
      rw [hdir] at h
      cases hstray : s.addStray d root.source with
      | error f =>
        rw [hstray] at h
        cases h
      | ok s₁ =>
        rw [hstray] at h
        have hfirst := addStray_addsFile hd hstray
        have hrest := ih h
        refine ⟨hrest.directories.trans hfirst.directories, fun name => ?_, fun name hname => ?_⟩
        · rw [hrest.files, hfirst.files]
          simp only [List.mem_cons, exists_eq_or_imp, hdir, true_and, or_assoc]
        · obtain ⟨root', hroot, hnone, hname⟩ := hname
          rcases List.mem_cons.mp hroot with rfl | hroot
          · exact hfirst.ordinary name hname
          · exact hrest.ordinary name ⟨root', hroot, hnone, hname⟩

/-- What a view has after staging. -/
theorem stage_isStaged (hd : d.IsProper) (h : stage d includes imports roots = .ok s) :
    (∀ name, (s.view.get? name).isSome ↔ ProvidesFile d includes imports roots name) ∧
      (∀ name, (s.view.directories.get? name).isSome ↔ ProvidesDirectory d includes imports name) ∧
      s.view.IsClosed := by
  rw [stage] at h
  cases hlaid : (includes.dirs ++ imports.dirs).foldlM (Staged.overlay d) {} with
  | error f =>
    rw [hlaid] at h
    cases h
  | ok laid =>
    rw [hlaid] at h
    have hunion := isUnion_of_overlays hd hlaid
    have hadds := addRoots_addsFile hd.rooted h
    refine ⟨fun name => ?_, fun name => ?_, fun parent name hname hbelow => ?_⟩
    · rw [hadds.files, hunion.files]
      rfl
    · rw [hadds.directories, hunion.directories]
      rfl
    · have hstaged : laid.view.IsStaged name := by
        rcases hname with hfile | hdir
        · rcases (hadds.files name).mp hfile with hfile | hadded
          · exact Or.inl hfile
          · exact absurd hbelow (not_liesBelow_of_isOrdinary (hadds.ordinary name hadded))
        · rw [hadds.directories] at hdir
          exact Or.inr hdir
      rw [hadds.directories]
      exact hunion.isClosed hd parent name hstaged hbelow

/-- A staged view is a tree just if no directory, and no root outside of all, has a file where a
directory has a directory. -/
theorem stage_isTree_iff (hd : d.IsProper) (h : stage d includes imports roots = .ok s) :
    s.view.IsTree ↔ ∀ name, ProvidesFile d includes imports roots name →
      ¬ ProvidesDirectory d includes imports name := by
  obtain ⟨hfiles, hdirectories, hclosed⟩ := stage_isStaged hd h
  rw [hclosed.isTree_iff]
  exact forall_congr' fun name => by rw [hfiles, hdirectories]

/-- No name of the disk is a file in one of the two directories and a directory in the other. -/
theorem layeredDisk_isTree :
    layeredDisk.IsProper ∧
      ∃ s, stage layeredDisk ⟨[⟨"/a"⟩]⟩ ⟨[⟨"/b"⟩]⟩ [] = .ok s ∧ s.view.IsTree := by
  obtain ⟨s, hstage⟩ : ∃ s, stage layeredDisk ⟨[⟨"/a"⟩]⟩ ⟨[⟨"/b"⟩]⟩ [] = .ok s := ⟨_, by cbv⟩
  have ha : layeredDisk.locate ⟨"/a"⟩ true = .ok ["a"] := by cbv
  have hb : layeredDisk.locate ⟨"/b"⟩ true = .ok ["b"] := by cbv
  refine ⟨layeredDisk_isProper, s, hstage, ?_⟩
  rw [stage_isTree_iff layeredDisk_isProper hstage]
  rintro name - hdirectory
  obtain ⟨dir, hdir, m, hm⟩ := firstMode?_isSome_iff.mp hdirectory
  -- the directories of this disk lie right below its root
  have hshallow : ∀ l m, layeredDisk.get? l = some (.directory m) → l = [] ∨ l = ["a"] ∨ l = ["b"] := by
    intro l m hl
    by_cases hnil : l = []
    · exact Or.inl hnil
    · have hmem := (layeredDisk_isProper.get?_eq_some_iff hnil).mp hl
      simp only [layeredDisk, List.mem_cons, Prod.mk.injEq, reduceCtorEq, and_false,
        List.not_mem_nil, or_false, false_or] at hmem
      exact Or.inr (hmem.imp (·.1) (·.1))
  obtain rfl | rfl : dir = ⟨"/a"⟩ ∨ dir = ⟨"/b"⟩ := by simpa using hdir
  · rw [entryBelow?, ha] at hm
    simpa [pieces_ne_nil] using hshallow _ m hm
  · rw [entryBelow?, hb] at hm
    simpa [pieces_ne_nil] using hshallow _ m hm

/-- Two directories of which one has a file where the other one has a directory. -/
def clashingDisk : Disk where
  entries := [(["a"], .directory 0o755), (["a", "x"], .file (.bytes [1]) 0o644),
    (["b"], .directory 0o755), (["b", "x"], .directory 0o755),
    (["b", "x", "y"], .file (.bytes [2]) 0o644)]
  workingDirectory := []

/-- Both are staged, under one name. -/
theorem clashingDisk_not_isTree :
    ∃ s, stage clashingDisk ⟨[⟨"/a"⟩, ⟨"/b"⟩]⟩ .empty [] = .ok s ∧ ¬ s.view.IsTree := by
  obtain ⟨s, hstage⟩ : ∃ s, stage clashingDisk ⟨[⟨"/a"⟩, ⟨"/b"⟩]⟩ .empty [] = .ok s := ⟨_, by cbv⟩
  have hd : clashingDisk.IsProper := Disk.isProper_of_entries (by decide) (by decide)
  have hfile : (firstFile? clashingDisk [⟨"/a"⟩, ⟨"/b"⟩] "x").isSome = true := by cbv
  have hmode : (firstMode? clashingDisk [⟨"/a"⟩, ⟨"/b"⟩] "x").isSome = true := by cbv
  obtain ⟨hfiles, hdirectories, -⟩ := stage_isStaged hd hstage
  exact ⟨s, hstage, fun htree =>
    htree.apart "x" ((hfiles "x").mpr (Or.inl hfile)) ((hdirectories "x").mpr hmode)⟩

end ProtoForge.Staging
