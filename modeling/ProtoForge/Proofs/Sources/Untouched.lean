import ProtoForge.Proofs.Sources.Recollection

/-!
# Sources that are left alone

A directory below which nothing changes lists the same schema files, whatever is
made elsewhere. So a run that leaves the project's directory and its packages
alone is undisturbed: the work directory lies in none of them.
-/
namespace ProtoForge

open Files Disk

namespace Files.Disk

variable {b d e : Disk} {dir root : Path} {l : Location}

/-- A path opens a directory below which nothing differs on another disk. -/
structure LeavesAlone (d e : Disk) (dir : Path) (l : Location) : Prop where
  located : d.locate dir true = .ok l
  directory : d.HasDirectory l
  text : checkText (pathOf l).text = .ok ()
  below : ∀ ps, e.get? (l ++ ps) = d.get? (l ++ ps)

/-- A directory is walked under its canonical path. -/
theorem canonicalize_walk (hd : d.IsProper) (hlocate : d.locate dir true = .ok l)
    (hl : d.HasDirectory l) (htext : checkText (pathOf l).text = .ok ()) :
    d.canonicalize dir = .ok (pathOf l) ∧ ∃ m, d.walk (pathOf l) =
      .ok (⟨pathOf l, .directory m⟩ :: d.walkBelow (pathOf l) l) := by
  obtain ⟨m, hm⟩ := hl
  have hstatus : d.status dir = .ok (l, .directory m) := by simp [status, hlocate, hm]
  have hcanonical : d.canonicalize dir = .ok (pathOf l) := by
    rw [canonicalize, hstatus]
    rfl
  obtain ⟨k, x, hlocate', -, -, hcomponents⟩ := Sources.canonicalize_eq_ok hd hcanonical
  obtain rfl : l = k := Except.ok.inj (hlocate.symm.trans hlocate')
  have hopens : d.locate (pathOf l) true = .ok l := locate_iff.mpr
    ⟨htext, (hd.follows_canonical hcomponents ⟨m, hm⟩).mono (Nat.zero_le _)⟩
  obtain ⟨entries, hwalk⟩ := exists_walk hopens (by simp [hm])
  obtain ⟨-, rfl⟩ := Sources.walk_canonical hd hm (by simp) hcomponents hwalk
  exact ⟨hcanonical, m, hwalk⟩

/-- Where a disk is again as it was, it has looked alike all the time. -/
theorem BuiltUp.map_eq (h : d.BuiltUp b) (hahead : b.Grown e) (hsame : e.get? l = d.get? l) :
    (b.get? l).map (Entry.mapContent fun _ => .bytes []) =
      (d.get? l).map (Entry.mapContent fun _ => .bytes []) := by
  rcases h.changes l with heq | hmade | ⟨⟨bytes, m, hfile, hbefore⟩, -⟩
  · rw [heq]
  · obtain ⟨m, hm⟩ := hmade.directory
    rw [hahead.absent (hsame.trans hmade.absent)] at hm
    cases hm
  · rcases hbefore with hnone | ⟨c, hc⟩
    · rw [hahead.absent (hsame.trans hnone)] at hfile
      cases hfile
    · rw [hfile, hc]
      rfl

theorem LeavesAlone.map_walkBelow_eq (h : d.LeavesAlone e dir l) (hd : d.IsProper)
    (hb : d.BuiltUp b) (hahead : b.Grown e) (root : Path) :
    (b.walkBelow root l).map (WalkEntry.mapContent fun _ => .bytes []) =
      (d.walkBelow root l).map (WalkEntry.mapContent fun _ => .bytes []) :=
  Disk.map_walkBelow_eq hd (hb.grown.proper hd) root fun ps => hb.map_eq hahead (h.below ps)

end Files.Disk

namespace Package

variable {b d e : Disk} {root : Path} {filter : Scan.Filter} {l : Location} {r : Resolved}

/-- The schema files of a directory are those below it, under canonical paths. -/
theorem walkDirectory_of_directory (hd : d.IsProper) (hlocate : d.locate root true = .ok l)
    (hl : d.HasDirectory l) (htext : checkText (pathOf l).text = .ok ()) :
    walkDirectory d root filter = .ok ((((d.walkBelow (pathOf l) l).filter fun e =>
      e.entry.isFile && Sources.isSchemaFile e.path).map fun e =>
        SchemaEntry.onDisk (pathOf l) e.path).filter fun e => filter.passes e.relativePath.text) := by
  obtain ⟨hcanonical, m, hwalk⟩ := canonicalize_walk hd hlocate hl htext
  rw [walkDirectory, hcanonical]
  simp only [Except.mapError, Disk.ok_bind, hwalk]
  rw [List.filter_cons_of_neg (by simp [Entry.isFile])]
  rfl

theorem walkDirectory_leftAlone (h : d.LeavesAlone e root l) (hd : d.IsProper) (hb : d.BuiltUp b)
    (hahead : b.Grown e) : walkDirectory b root filter = walkDirectory d root filter := by
  rw [walkDirectory_of_directory hd h.located h.directory h.text,
    walkDirectory_of_directory (hb.grown.proper hd) (hb.grown.locate h.located)
      (hb.grown.directories l h.directory) h.text,
    schemaFiles_congr (SchemaEntry.onDisk (pathOf l)) (h.map_walkBelow_eq hd hb hahead (pathOf l))]

/-- Nothing differs below the directory of a package, or its archive is the same. -/
def Resolved.LeftAlone (r : Resolved) (d e : Disk) : Prop :=
  match r.content with
  | .directory root => ∃ l, d.LeavesAlone e root l
  | .archive file => ∃ listed, d.read file = .ok (.archive listed) ∧
      e.read file = .ok (.archive listed)

/-- A package that is left alone in the end is so on the way. -/
theorem Resolved.LeftAlone.walk_eq (h : r.LeftAlone d e) (hd : d.IsProper) (hb : d.BuiltUp b)
    (hahead : b.BuiltUp e) : r.walk b filter = r.walk d filter := by
  rw [LeftAlone] at h
  rw [Resolved.walk, Resolved.walk]
  cases hcontent : r.content with
  | directory root =>
    rw [hcontent] at h
    obtain ⟨l, hl⟩ := h
    dsimp only
    rw [walkDirectory_leftAlone hl hd hb hahead.grown]
  | archive file =>
    rw [hcontent] at h
    obtain ⟨listed, hread, hread'⟩ := h
    have hsame : b.read file = d.read file := by
      obtain ⟨l, m, hlocate, hfile⟩ := read_eq_ok_iff.mp hread
      obtain ⟨c, hc⟩ := hb.file hfile
      have hc' : b.read file = .ok c := read_eq_ok_iff.mpr ⟨l, m, hb.grown.locate hlocate, hc⟩
      rw [hc', hahead.read_archive hc' hread', hread]
    dsimp only
    rw [walkArchive, walkArchive, openArchive, openArchive, hsame]

end Package

namespace Sources

variable {b d e : Disk} {c : Settings.Config} {packages : List Package.Resolved} {found : Collected}
  {dir : Path} {l : Location}

/-- The project's own files are the schema files below its directory, under canonical paths. -/
theorem localFiles_of_directory (hd : d.IsProper) (hlocate : d.locate dir true = .ok l)
    (hl : d.HasDirectory l) (htext : checkText (pathOf l).text = .ok ()) :
    localFiles d dir = .ok (((d.walkBelow (pathOf l) l).filter fun e =>
      e.entry.isFile && isSchemaFile e.path).map fun e => ⟨e.path, pathOf l, .project⟩) := by
  obtain ⟨hcanonical, m, hwalk⟩ := canonicalize_walk hd hlocate hl htext
  obtain ⟨n, hn⟩ := hl
  have hreaches : d.reaches dir = true := by simp [reaches, status, hlocate, hn, Except.toOption]
  rw [localFiles, if_pos hreaches, hcanonical]
  simp only [Except.mapError, Disk.ok_bind, hwalk]
  rw [List.filter_cons_of_neg (by simp [Entry.isFile])]
  rfl

theorem localFiles_leftAlone (h : d.LeavesAlone e dir l) (hd : d.IsProper) (hb : d.BuiltUp b)
    (hahead : b.Grown e) : localFiles b dir = localFiles d dir := by
  rw [localFiles_of_directory hd h.located h.directory h.text,
    localFiles_of_directory (hb.grown.proper hd) (hb.grown.locate h.located)
      (hb.grown.directories l h.directory) h.text,
    Package.schemaFiles_congr (fun p => (⟨p, pathOf l, .project⟩ : SchemaFile))
      (h.map_walkBelow_eq hd hb hahead (pathOf l))]

/-- A run that leaves the project's directory and its packages alone is undisturbed. -/
theorem undisturbed_of_leftAlone (hd : d.IsProper)
    (h : outcome (collect c packages) d = (.ok found, e))
    (hown : d.LeavesAlone e (c.sourceDir d) l)
    (hpackages : ∀ s ∈ scans c packages, s.2.LeftAlone d e) : Undisturbed c packages d e := by
  rw [outcome_collect] at h
  cases hlocal : collectLocal d (c.sourceDir d) with
  | error f =>
    rw [hlocal] at h
    cases h
  | ok mine =>
    rw [hlocal] at h
    have hbuilt : d.BuiltUp e := (builtUp_collectScans c mine (scans c packages)).of_outcome h
    refine ⟨localFiles_leftAlone hown hd hbuilt (.refl e), ?_⟩
    intro own before kind p after found₁ b hown' hscans hbefore
    obtain rfl : mine = own := Except.ok.inj (hlocal.symm.trans hown')
    have hb : d.BuiltUp b := (builtUp_collectScans c mine before).of_outcome hbefore
    -- the scans from this one on lead to the disk in the end
    have hahead : b.BuiltUp e := by
      dsimp only at h
      rw [hscans, collectScans, List.foldlM_append] at h
      obtain ⟨found₂, b', hfirst, hrest⟩ := outcome_bind_eq_ok.mp h
      rw [collectScans, hfirst] at hbefore
      obtain ⟨hfound, rfl⟩ := Prod.mk.inj hbefore
      exact (builtUp_collectScans c found₂ ((kind, p) :: after)).of_outcome hrest
    have hp : p.LeftAlone d e := hpackages (kind, p) (by simp [hscans])
    have hwalk : ∀ filter, p.walk e filter = p.walk b filter := fun filter =>
      (hp.walk_eq hd hbuilt (.refl e)).trans (hp.walk_eq hd hb hahead).symm
    simp only [selection, hwalk]

/-- Files of one directory have it as the first of their directories. -/
theorem head_insertAll {dirs : List Path} (hne : dirs ≠ []) (hdirs : ∀ p ∈ dirs, p = dir) :
    ∃ rest, (IncludeDirectories.empty.insertAll dirs).dirs = dir :: rest := by
  obtain ⟨p, ps, rfl⟩ := List.exists_cons_of_ne_nil hne
  obtain rfl := hdirs p List.mem_cons_self
  have hcontains : (IncludeDirectories.empty.insertAll (p :: ps)).contains p = true :=
    IncludeDirectories.contains_insertAll (Or.inl List.mem_cons_self)
  have hmem : ∀ q ∈ (IncludeDirectories.empty.insertAll (p :: ps)).dirs, q = p := by
    intro q hq
    rcases IncludeDirectories.mem_insertAll hq with hnil | hq
    · cases hnil
    · exact hdirs q hq
  generalize IncludeDirectories.empty.insertAll (p :: ps) = found at hcontains hmem
  obtain ⟨dirs⟩ := found
  cases dirs with
  | nil => cases hcontains
  | cons q rest => exact ⟨rest, by rw [hmem q List.mem_cons_self]⟩

end Sources

end ProtoForge
