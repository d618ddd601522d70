import ProtoForge.Proofs.Files.Opening
import ProtoForge.Sources.Collection

/-!
# Gathered sources

Files of the project and of package directories are found under canonical
paths; those of archives are written below a directory of the work directory
and found there. Collecting goes on from one package to the next, and all the
while it keeps what it has.
-/
namespace ProtoForge

open Files

namespace Sources

/-- A regular file under its canonical path. -/
def IsCanonicalFile (d : Disk) (p : Path) : Prop :=
  ∃ l, View.HasFile d.get? l ∧ p.components = .root :: l.map .name

/-- A path that leads to a directory. -/
def LeadsToDirectory (d : Disk) (p : Path) : Prop := ∃ l, d.Leads p l ∧ d.HasDirectory l

/-- A path that leads to a regular file. -/
def LeadsToFile (d : Disk) (p : Path) : Prop := ∃ l, d.Leads p l ∧ View.HasFile d.get? l

/-- Whether a schema file was taken out of an archive. -/
def SchemaFile.isExtracted (f : SchemaFile) : Bool :=
  match f.provenance with
  | .extracted _ => true
  | _ => false

/-- Schema files that are where their paths say, each below a directory of the list. -/
structure Gathered (d : Disk) (found : Collected) : Prop where
  owned : ∀ root ∈ found.roots, found.includes.contains root.owner = true ∧
    root.owner.components <+: root.source.components
  directories : ∀ dir ∈ found.includes.dirs, LeadsToDirectory d dir
  canonical : ∀ root ∈ found.roots, root.isExtracted = false → IsCanonicalFile d root.source
  extracted : ∀ root ∈ found.roots, root.isExtracted = true → LeadsToFile d root.source

/-- From one moment of a collection to a later one. -/
structure Advances (d : Disk) (found : Collected) (d' : Disk) (found' : Collected) : Prop where
  grown : d.Grown d'
  roots : found.roots <+: found'.roots
  includes : found.includes.dirs <+: found'.includes.dirs
  gathered : Gathered d found → Gathered d' found'

variable {d d' d₁ : Disk} {found found' found₁ : Collected} {p q root top dir : Path} {l : Location}
  {entries : List WalkEntry} {e : WalkEntry} {kind : ScanKind} {file : SchemaFile}

theorem IsCanonicalFile.grown (h : IsCanonicalFile d p) (hgrown : d.Grown d') : IsCanonicalFile d' p := by
  obtain ⟨l, hl, hp⟩ := h
  exact ⟨l, hgrown.files l hl, hp⟩

theorem LeadsToDirectory.grown (h : LeadsToDirectory d p) (hgrown : d.Grown d') :
    LeadsToDirectory d' p := by
  obtain ⟨l, hleads, hl⟩ := h
  exact ⟨l, hleads.grown hgrown, hgrown.directories l hl⟩

theorem LeadsToFile.grown (h : LeadsToFile d p) (hgrown : d.Grown d') : LeadsToFile d' p := by
  obtain ⟨l, hleads, hl⟩ := h
  exact ⟨l, hleads.grown hgrown, hgrown.files l hl⟩

theorem Gathered.grown (h : Gathered d found) (hgrown : d.Grown d') : Gathered d' found where
  owned := h.owned
  directories dir hdir := (h.directories dir hdir).grown hgrown
  canonical root hroot hnot := (h.canonical root hroot hnot).grown hgrown
  extracted root hroot hextracted := (h.extracted root hroot hextracted).grown hgrown

namespace Advances

theorem refl (d : Disk) (found : Collected) : Advances d found d found :=
  ⟨.refl d, List.prefix_rfl, List.prefix_rfl, id⟩

theorem trans (h : Advances d found d₁ found₁) (h' : Advances d₁ found₁ d' found') :
    Advances d found d' found' where
  grown := h.grown.trans h'.grown
  roots := h.roots.trans h'.roots
  includes := h.includes.trans h'.includes
  gathered hg := h'.gathered (h.gathered hg)

theorem report (d : Disk) (found : Collected) (ds : Diagnostics) :
    Advances d found d (found.report ds) :=
  ⟨.refl d, List.prefix_rfl, List.prefix_rfl,
    fun h => ⟨h.owned, h.directories, h.canonical, h.extracted⟩⟩

end Advances

namespace IncludeDirectories

variable {dirs : IncludeDirectories}

theorem isPrefix_insert (dirs : IncludeDirectories) (dir : Path) : dirs.dirs <+: (dirs.insert dir).dirs := by
  rw [insert]
  split_ifs
  · exact List.prefix_rfl
  · exact List.prefix_append _ _

theorem mem_insert (h : p ∈ (dirs.insert dir).dirs) : p ∈ dirs.dirs ∨ p = dir := by
  rw [insert] at h
  split_ifs at h
  · exact Or.inl h
  · simpa using h

theorem contains_of_isPrefix {more : IncludeDirectories} (h : dirs.dirs <+: more.dirs)
    (hp : dirs.contains p = true) : more.contains p = true := by
  rw [contains, List.any_eq_true] at hp ⊢
  obtain ⟨q, hq, hsame⟩ := hp
  exact ⟨q, h.subset hq, hsame⟩

/-- A path below a directory of the list lies in one of its directories. -/
theorem containing?_isSome (hdir : dirs.contains dir = true) (h : dir.components <+: p.components) :
    (dirs.containing? p).isSome := by
  rw [contains, List.any_eq_true] at hdir
  obtain ⟨q, hq, hsame⟩ := hdir
  rw [containing?, List.find?_isSome]
  refine ⟨q, hq, Path.startsWith_iff.mpr ?_⟩
  rw [Path.same, beq_iff_eq] at hsame
  rwa [hsame]

end IncludeDirectories

/-- One more schema file. -/
theorem Gathered.add (h : Gathered d found) (kind : ScanKind)
    (howner : LeadsToDirectory d file.owner) (hbelow : file.owner.components <+: file.source.components)
    (hcanonical : file.isExtracted = false → IsCanonicalFile d file.source)
    (hextracted : file.isExtracted = true → LeadsToFile d file.source) :
    Gathered d (found.add kind file) := by
  cases kind with
  | importOnly => exact ⟨h.owned, h.directories, h.canonical, h.extracted⟩
  | dependency =>
    have hmem : ∀ root ∈ found.roots ++ [file], root ∈ found.roots ∨ root = file := by
      intro root hroot
      simpa using hroot
    refine ⟨fun root hroot => ?_, fun dir hdir => ?_, fun root hroot hnot => ?_, fun root hroot hext => ?_⟩
    · rcases hmem root hroot with hroot | rfl
      · obtain ⟨hcontains, hstart⟩ := h.owned root hroot
        exact ⟨IncludeDirectories.contains_of_isPrefix
          (IncludeDirectories.isPrefix_insert _ _) hcontains, hstart⟩
      · exact ⟨IncludeDirectories.contains_insert _ _, hbelow⟩
    · rcases IncludeDirectories.mem_insert hdir with hdir | rfl
      · exact h.directories dir hdir
      · exact howner
    · rcases hmem root hroot with hroot | rfl
      · exact h.canonical root hroot hnot
      · exact hcanonical hnot
    · rcases hmem root hroot with hroot | rfl
      · exact h.extracted root hroot hext
      · exact hextracted hext

theorem Advances.add (found : Collected) (kind : ScanKind)
    (howner : LeadsToDirectory d file.owner) (hbelow : file.owner.components <+: file.source.components)
    (hcanonical : file.isExtracted = false → IsCanonicalFile d file.source)
    (hextracted : file.isExtracted = true → LeadsToFile d file.source) :
    Advances d found d (found.add kind file) := by
  refine ⟨.refl d, ?_, ?_, fun h => h.add kind howner hbelow hcanonical hextracted⟩
  · cases kind with
    | dependency => exact List.prefix_append _ _
    | importOnly => exact List.prefix_rfl
  · cases kind with
    | dependency => exact IncludeDirectories.isPrefix_insert _ _
    | importOnly => exact List.prefix_rfl

/-- What a path leads to has a canonical path of its own, which leads there too. -/
theorem canonicalize_eq_ok (hd : d.IsProper) (h : d.canonicalize p = .ok top) :
    ∃ l x, d.locate p true = .ok l ∧ d.get? l = some x ∧ (∀ t, x ≠ .link t) ∧
      top.components = .root :: l.map .name := by
  obtain ⟨⟨l, x⟩, hstatus, htop⟩ := Disk.bind_eq_ok.mp h
  obtain ⟨k, hlocate, hx⟩ := Disk.bind_eq_ok.mp hstatus
  cases hk : d.get? k with
  | none =>
    rw [hk] at hx
    cases hx
  | some y =>
    rw [hk] at hx
    obtain ⟨rfl, rfl⟩ := Prod.mk.inj (Except.ok.inj hx)
    obtain rfl := Except.ok.inj htop
    have hlink := Disk.not_link_of_locate hd.rooted hlocate
    rw [hk] at hlink
    refine ⟨k, y, hlocate, hk, fun t ht => hlink t (congrArg some ht), ?_⟩
    exact Disk.components_pathOf fun s hs => (hd.isFileName (by simp [hk]) s hs).toIsOrdinary

/-- A walk from a canonical path meets what lies there and below. -/
theorem walk_canonical (hd : d.IsProper) {x : Entry} (hl : d.get? l = some x) (hlink : ∀ t, x ≠ .link t)
    (htop : top.components = .root :: l.map .name) (h : d.walk top = .ok entries) :
    d.locate top true = .ok l ∧ entries = ⟨top, x⟩ :: d.walkBelow top l := by
  obtain ⟨k, hlocate, h⟩ := Disk.bind_eq_ok.mp h
  rw [Disk.mapError_eq_ok] at hlocate
  obtain rfl : k = l := hd.eq_of_locate_canonical htop hl hlink hlocate
  have hnot : ∀ t, d.get? k ≠ some (.link t) := fun t ht => hlink t (Option.some.inj (hl.symm.trans ht))
  refine ⟨Disk.locate_of_not_link hlocate hnot, ?_⟩
  cases x with
  | link t => exact absurd rfl (hlink t)
  | directory m =>
    simp only [hl] at h
    exact (Except.ok.inj h).symm
  | file c m =>
    simp only [hl] at h
    exact (Except.ok.inj h).symm

/-- A walk from a canonical path meets files under their canonical paths. -/
theorem isCanonicalFile_of_walk (hd : d.IsProper) {x : Entry} (hl : d.get? l = some x)
    (hlink : ∀ t, x ≠ .link t) (htop : top.components = .root :: l.map .name)
    (h : d.walk top = .ok entries) (he : e ∈ entries) (hfile : e.entry.isFile = true) :
    IsCanonicalFile d e.path ∧ top.components <+: e.path.components := by
  obtain ⟨hlocate, rfl⟩ := walk_canonical hd hl hlink htop h
  rcases List.mem_cons.mp he with rfl | he
  · cases x with
    | directory m => cases hfile
    | link t => cases hfile
    | file c m => exact ⟨⟨l, ⟨c, m, hl⟩, htop⟩, List.prefix_rfl⟩
  · rw [Disk.walkBelow_eq] at he
    obtain ⟨⟨names, y⟩, hmem, rfl⟩ := List.mem_map.mp he
    obtain ⟨-, hy⟩ := hd.mem_below.mp hmem
    have hcomponents : (top.below names).components = top.components ++ names.map .name :=
      Path.components_below (Disk.text_ne_empty_of_locate hlocate) fun s hs =>
        (hd.isFileName_of_below hy s hs).toIsOrdinary
    cases y with
    | directory m => cases hfile
    | link t => cases hfile
    | file c m =>
      refine ⟨⟨l ++ names, ⟨c, m, hy⟩, ?_⟩, ?_⟩
      · rw [hcomponents, htop, List.map_append]
        rfl
      · rw [hcomponents]
        exact List.prefix_append _ _

/-- The directory that holds a file of a canonical path. -/
theorem IsCanonicalFile.parent (hd : d.IsProper) (h : IsCanonicalFile d p) :
    ∃ q, p.parent? = some q ∧ LeadsToDirectory d q ∧ q.components <+: p.components := by
  obtain ⟨l, hl, hp⟩ := h
  obtain ⟨parent, s, rfl⟩ := (List.eq_nil_or_concat l).resolve_left (Disk.ne_nil_of_hasFile hl)
  rw [List.concat_eq_append] at hl hp
  obtain ⟨q, hq⟩ : ∃ q, p.parent? = some q := by
    rw [← Option.ne_none_iff_exists', ne_eq, Path.parent?_eq_none_iff, hp]
    simp
  have hcomponents : q.components = .root :: parent.map .name := by
    rw [(Path.components_parent hq).1, hp, List.map_append, List.map_singleton, ← List.cons_append,
      List.dropLast_concat]
  obtain ⟨c, m, hfile⟩ := hl
  have hdir : d.HasDirectory parent := hd.rooted parent s (by simp [hfile])
  refine ⟨q, hq, ⟨parent, hd.leads_canonical hcomponents hdir, hdir⟩, ?_⟩
  rw [hp, hcomponents, List.map_append]
  exact List.prefix_append (Component.root :: parent.map Component.name) _

end Sources

namespace Package

open Sources

variable {d d' : Disk} {p : Path} {name : String} {filter : Scan.Filter} {entries : List SchemaEntry}
  {findings : Diagnostics} {r : Resolved}

/-- An entry of a package as walks give them: a file under its canonical path, or a relative one. -/
def SchemaEntry.IsSound (d : Disk) : SchemaEntry → Prop
  | onDisk _ path => IsCanonicalFile d path
  | archived _ relative => relative.isAbsolute = false

theorem SchemaEntry.IsSound.grown {e : SchemaEntry} (h : e.IsSound d) (hgrown : d.Grown d') :
    e.IsSound d' := by
  cases e with
  | onDisk root path => exact IsCanonicalFile.grown h hgrown
  | archived archive relative => exact h

/-- A safe name is relative. -/
theorem isAbsolute_of_enclosedPath (h : enclosedPath? name = some p) : p.isAbsolute = false := by
  rw [enclosedPath?] at h
  split_ifs at h with hnul hdepth
  obtain rfl := Option.some.inj h
  rw [Bool.eq_false_iff]
  intro habsolute
  have hhead := Path.head_of_isAbsolute habsolute
  cases hcomponents : (Path.mk name).components with
  | nil => simp [hcomponents] at hhead
  | cons c rest =>
    rw [hcomponents] at hhead hdepth
    obtain rfl := Option.some.inj hhead
    simp [depthFrom] at hdepth

theorem walkDirectory_sound (hd : d.IsProper) (h : walkDirectory d p filter = .ok entries) :
    ∀ e ∈ entries, e.IsSound d := by
  obtain ⟨top, htop, h⟩ := Disk.bind_eq_ok.mp h
  obtain ⟨met, hwalk, h⟩ := Disk.bind_eq_ok.mp h
  obtain rfl := Except.ok.inj h
  obtain ⟨l, x, -, hl, hlink, hcomponents⟩ := canonicalize_eq_ok hd (Disk.mapError_eq_ok.mp htop)
  intro e he
  obtain ⟨w, hw, rfl⟩ := List.mem_map.mp (List.mem_filter.mp he).1
  obtain ⟨hmem, hschema⟩ := List.mem_filter.mp hw
  rw [Bool.and_eq_true] at hschema
  exact (isCanonicalFile_of_walk hd hl hlink hcomponents (Disk.mapError_eq_ok.mp hwalk) hmem
    hschema.1).1

theorem walkArchive_sound {c : Coordinate} (h : walkArchive d p filter c = .ok (entries, findings)) :
    ∀ e ∈ entries, e.IsSound d := by
  obtain ⟨listed, -, h⟩ := Disk.bind_eq_ok.mp h
  obtain ⟨rfl, -⟩ := Prod.mk.inj (Except.ok.inj h)
  intro e he
  obtain ⟨relative, hrelative, rfl⟩ := List.mem_map.mp he
  rw [List.mem_mergeSort] at hrelative
  obtain ⟨found, hfound, hok⟩ := List.mem_filterMap.mp (List.mem_filter.mp hrelative).1
  obtain ⟨name, -, rfl⟩ := List.mem_map.mp hfound
  rw [enclosed] at hok
  cases henclosed : enclosedPath? name with
  | none => simp [henclosed, Except.toOption] at hok
  | some q =>
    rw [henclosed] at hok
    obtain rfl : q = relative := Option.some.inj hok
    exact isAbsolute_of_enclosedPath henclosed

/-- A walk through a package goes through its directory or through its archive. -/
theorem Resolved.walk_eq_ok_cases (h : r.walk d filter = .ok (entries, findings)) :
    (∃ root, r.content = .directory root ∧ walkDirectory d root filter = .ok entries) ∨
      ∃ file, r.content = .archive file ∧
        walkArchive d file filter r.coordinate = .ok (entries, findings) := by
  rw [Resolved.walk] at h
  cases hcontent : r.content with
  | directory root =>
    rw [hcontent] at h
    obtain ⟨found, hwalk, hfound⟩ := Disk.bind_eq_ok.mp h
    obtain ⟨rfl, -⟩ := Prod.mk.inj (Except.ok.inj hfound)
    exact Or.inl ⟨root, rfl, hwalk⟩
  | archive file =>
    rw [hcontent] at h
    exact Or.inr ⟨file, rfl, h⟩

/-- What the walk through a package gives is sound. -/
theorem Resolved.walk_sound (hd : d.IsProper) (h : r.walk d filter = .ok (entries, findings)) :
    ∀ e ∈ entries, e.IsSound d := by
  rcases Resolved.walk_eq_ok_cases h with ⟨root, -, hwalk⟩ | ⟨file, -, hwalk⟩
  · exact walkDirectory_sound hd hwalk
  · exact walkArchive_sound hwalk

end Package

namespace Sources

/-- A path that leads to a file with the extension of schema files at its canonical path. -/
def LeadsToSchemaFile (d : Disk) (p : Path) : Prop :=
  d.isFile p = true ∧ ∃ top, d.canonicalize p = .ok top ∧ isSchemaFile top = true

theorem IncludeDirectories.contains_insertAll {ps : List Path} {dirs : IncludeDirectories}
    (h : p ∈ ps ∨ dirs.contains p = true) : (dirs.insertAll ps).contains p = true := by
  induction ps generalizing dirs with
  | nil => exact h.resolve_left List.not_mem_nil
  | cons q ps ih =>
    refine ih ?_
    rcases h with h | h
    · rcases List.mem_cons.mp h with rfl | h
      · exact Or.inr (contains_insert dirs p)
      · exact Or.inl h
    · exact Or.inr (contains_of_isPrefix (isPrefix_insert dirs q) h)

theorem IncludeDirectories.mem_insertAll {ps : List Path} {dirs : IncludeDirectories}
    (h : p ∈ (dirs.insertAll ps).dirs) : p ∈ dirs.dirs ∨ p ∈ ps := by
  induction ps generalizing dirs with
  | nil => exact Or.inl h
  | cons q ps ih =>
    rcases ih h with h | h
    · rcases mem_insert h with h | rfl
      · exact Or.inl h
      · exact Or.inr List.mem_cons_self
    · exact Or.inr (List.mem_cons_of_mem q h)

/-- Files below one directory. -/
theorem gathered_of_directory {files : List SchemaFile} (htop : LeadsToDirectory d top)
    (hfiles : ∀ file ∈ files, file.owner = top ∧ file.isExtracted = false ∧
      IsCanonicalFile d file.source ∧ top.components <+: file.source.components) :
    Gathered d { roots := files, includes := IncludeDirectories.empty.insertAll (files.map (·.owner)) } := by
  refine ⟨fun root hroot => ⟨?_, ?_⟩, fun dir hdir => ?_, fun root hroot _ => ?_, fun root hroot hext => ?_⟩
  · exact IncludeDirectories.contains_insertAll (Or.inl (List.mem_map_of_mem hroot))
  · obtain ⟨howner, -, -, hbelow⟩ := hfiles root hroot
    rwa [howner]
  · rcases IncludeDirectories.mem_insertAll hdir with hnil | hmem
    · cases hnil
    · obtain ⟨file, hfile, rfl⟩ := List.mem_map.mp hmem
      rwa [(hfiles file hfile).1]
  · exact (hfiles root hroot).2.2.1
  · simp [(hfiles root hroot).2.1] at hext

/-- The project's own files are gathered, unless its directory is a schema file itself. -/
theorem collectLocal_cases {own : Collected} (hd : d.IsProper) (h : collectLocal d dir = .ok own) :
    ¬ LeadsToSchemaFile d dir ∧ Gathered d own ∨
      LeadsToSchemaFile d dir ∧ ∃ top, own.includes.dirs = [top] ∧
        (⟨top, top, .project⟩ : SchemaFile) ∈ own.roots := by
  obtain ⟨files, hfiles, h⟩ := Disk.bind_eq_ok.mp h
  obtain rfl := Except.ok.inj h
  have hempty : Gathered d { roots := [], includes := IncludeDirectories.empty.insertAll [] } :=
    ⟨by simp, by simp [IncludeDirectories.insertAll, IncludeDirectories.empty], by simp, by simp⟩
  rw [localFiles] at hfiles
  by_cases hreaches : d.reaches dir = true
  · rw [if_pos hreaches] at hfiles
    obtain ⟨top, htop, hfiles⟩ := Disk.bind_eq_ok.mp hfiles
    obtain ⟨entries, hwalk, hfiles⟩ := Disk.bind_eq_ok.mp hfiles
    rw [Disk.mapError_eq_ok] at htop hwalk
    obtain ⟨l, x, hlocate, hl, hlink, hcomponents⟩ := canonicalize_eq_ok hd htop
    obtain ⟨htopLocate, hentries⟩ := walk_canonical hd hl hlink hcomponents hwalk
    have hfile : d.isFile dir = true ↔ View.HasFile d.get? l := by
      rw [Disk.isFile_iff]
      simp [hlocate]
    cases x with
    | link t => exact absurd rfl (hlink t)
    | directory m =>
      left
      refine ⟨fun hleads => Disk.not_hasDirectory_of_hasFile (hfile.mp hleads.1) ⟨m, hl⟩, ?_⟩
      refine gathered_of_directory ⟨l, .of_locate htopLocate, m, hl⟩ fun file hmem => ?_
      rw [← Except.ok.inj hfiles] at hmem
      obtain ⟨e, he, rfl⟩ := List.mem_map.mp hmem
      obtain ⟨hmet, hschema⟩ := List.mem_filter.mp he
      rw [Bool.and_eq_true] at hschema
      exact ⟨rfl, rfl, isCanonicalFile_of_walk hd hl hlink hcomponents hwalk hmet hschema.1⟩
    | file c m =>
      have hbelow : d.below l = [] := hd.below_eq_nil (Disk.not_hasDirectory_of_hasFile ⟨c, m, hl⟩)
      rw [Disk.walkBelow_eq, hbelow, List.map_nil] at hentries
      rw [hentries] at hfiles
      by_cases hschema : isSchemaFile top = true
      · right
        refine ⟨⟨hfile.mpr ⟨c, m, hl⟩, top, htop, hschema⟩, top, ?_⟩
        obtain rfl : files = [⟨top, top, .project⟩] := by
          simpa [Entry.isFile, hschema] using (Except.ok.inj hfiles).symm
        exact ⟨rfl, List.mem_singleton_self _⟩
      · left
        obtain rfl : files = [] := by
          simpa [Entry.isFile, hschema] using (Except.ok.inj hfiles).symm
        refine ⟨?_, hempty⟩
        rintro ⟨-, top', htop', hschema'⟩
        obtain rfl := Except.ok.inj (htop.symm.trans htop')
        exact hschema hschema'
  · rw [if_neg hreaches] at hfiles
    obtain rfl := Except.ok.inj hfiles
    left
    refine ⟨fun hleads => hreaches ?_, hempty⟩
    obtain ⟨l, hlocate, c, m, hl⟩ := Disk.isFile_iff.mp hleads.1
    simp [Disk.reaches, Disk.status, hlocate, hl, Except.toOption]

section Packages

variable {d d' : Disk} {found found' : Collected} {kind : ScanKind} {options : List String}
  {package : Package.Coordinate} {dir archive relative : Path} {c : Settings.Config}
  {file : SchemaFile} {findings : Diagnostics} {e : Package.SchemaEntry}

theorem extractionDirectory_text_ne_empty (workDir : Path) (kind : ScanKind)
    (package : Package.Coordinate) : (extractionDirectory workDir kind package).text ≠ "" := by
  refine Path.join_text_ne_empty ?_
  by_cases hwork : workDir.text = ""
  · cases kind <;> simp [Path.join, hwork, Path.isAbsolute, ScanKind.directory]
  · exact Path.join_text_ne_empty hwork

/-- Makes the directories above a place. -/
def makeDirectoriesAbove (target : Path) : FileAction Unit :=
  match target.parent? with
  | some parent => makeDirectories parent
  | none => pure ()

theorem grows_makeDirectoriesAbove (target : Path) : Grows (makeDirectoriesAbove target) := by
  rw [makeDirectoriesAbove]
  cases target.parent? with
  | none => exact fun d => .refl d
  | some parent => exact grows_makeDirectories parent

/-- An entry is read, the directories above its place are made, and it is written there. -/
theorem extract_eq (options : List String) (kind : ScanKind) (package : Package.Coordinate)
    (dir archive relative : Path) :
    extract options kind package dir archive relative = (do
      let failed := Failure.extraction package.uniqueName relative.text (dir.join relative)
      let b ← (FileAction.inspect fun d => Package.readEntry d archive relative).orFail failed
      (makeDirectoriesAbove (dir.join relative)).orFail failed
      (writeFile (dir.join relative) (extractedBytes options kind b).1).orFail failed
      pure (⟨dir.join relative, dir, .extracted package⟩, (extractedBytes options kind b).2.map
        (.legacyOptionStripped relative.text · package.uniqueName))) := by
  rw [extract, makeDirectoriesAbove]
  congr 1
  funext b
  generalize extractedBytes options kind b = extracted
  obtain ⟨bytes, stripped⟩ := extracted
  cases (dir.join relative).parent? <;> rfl

theorem extract_eq_ok :
    outcome (extract options kind package dir archive relative) d = (.ok (file, findings), d') ↔
      ∃ b d₁, Package.readEntry d archive relative = .ok b ∧
        outcome (makeDirectoriesAbove (dir.join relative)) d = (.ok (), d₁) ∧
        outcome (writeFile (dir.join relative) (extractedBytes options kind b).1) d₁ =
          (.ok (), d') ∧
        file = ⟨dir.join relative, dir, .extracted package⟩ ∧
        findings = (extractedBytes options kind b).2.map
          (.legacyOptionStripped relative.text · package.uniqueName) := by
  rw [extract_eq]
  constructor
  · intro h
    obtain ⟨b, d₀, hread, hrest⟩ := outcome_bind_eq_ok.mp h
    obtain ⟨⟨⟩, d₁, hmake, hlast⟩ := outcome_bind_eq_ok.mp hrest
    obtain ⟨⟨⟩, d₂, hwrite, hend⟩ := outcome_bind_eq_ok.mp hlast
    rw [outcome_orFail_eq_ok] at hread hmake hwrite
    rw [outcome_inspect] at hread
    rw [outcome_pure] at hend
    obtain ⟨hb, rfl⟩ := Prod.mk.inj hread
    obtain ⟨hresult, rfl⟩ := Prod.mk.inj hend
    obtain ⟨rfl, rfl⟩ := Prod.mk.inj (Except.ok.inj hresult)
    exact ⟨b, d₁, hb, hmake, hwrite, rfl, rfl⟩
  · rintro ⟨b, d₁, hb, hmake, hwrite, rfl, rfl⟩
    refine outcome_bind_eq_ok.mpr ⟨b, d, ?_, ?_⟩
    · rw [outcome_orFail_eq_ok, outcome_inspect, hb]
    · exact outcome_bind_eq_ok.mpr ⟨(), d₁, outcome_orFail_eq_ok.mpr hmake,
        outcome_bind_eq_ok.mpr ⟨(), d', outcome_orFail_eq_ok.mpr hwrite, rfl⟩⟩

/-- An extracted file is where its path leads, and its directory is one. -/
theorem extract_spec
    (h : outcome (extract options kind package dir archive relative) d = (.ok (file, findings), d')) :
    file = ⟨dir.join relative, dir, .extracted package⟩ ∧ d.Grown d' ∧
      LeadsToFile d' (dir.join relative) := by
  obtain ⟨b, d₁, -, hmake, hwrite, rfl, -⟩ := extract_eq_ok.mp h
  have hmade := (grows_makeDirectoriesAbove (dir.join relative)).of_outcome hmake
  have hwritten := (grows_writeFile (dir.join relative) _).of_outcome hwrite
  exact ⟨rfl, hmade.trans hwritten, writeFile_leads hwrite (.refl _)⟩

/-- The directory in which a file lies. -/
theorem LeadsToFile.directory (h : LeadsToFile d (dir.join relative)) (hdir : dir.text ≠ "")
    (hrelative : relative.isAbsolute = false) : LeadsToDirectory d dir := by
  obtain ⟨l, ⟨n, hn⟩, hl⟩ := h
  obtain ⟨start, before, idle, hstart, hidle, hjoin⟩ :=
    Path.startOf_join_eq hdir hrelative d.workingDirectory
  rw [hjoin] at hn
  obtain ⟨m, hbefore, hrest⟩ := hn.split
  have hm := hrest.hasDirectory_of_ne_nil (Path.pieces_ne_nil relative.text)
  refine ⟨m, ⟨n, ?_⟩, hm⟩
  rw [hstart]
  refine hbefore.of_moving hm ?_
  rw [Path.moving_append, Path.moving_eq_nil hidle, List.append_nil]

/-- One more file of a package. -/
theorem collectEntry_advances (hd : d.IsProper) (he : e.IsSound d) (hdir : dir.text ≠ "")
    (h : outcome (collectEntry c kind package dir found e) d = (.ok found', d')) :
    Advances d found d' found' := by
  cases e with
  | onDisk root path =>
    obtain ⟨hresult, rfl⟩ := Prod.mk.inj h
    obtain rfl := Except.ok.inj hresult
    obtain ⟨parent, hparent, hleads, hbelow⟩ := IsCanonicalFile.parent hd he
    rw [hparent]
    exact .add found kind hleads hbelow (fun _ => he) (fun hext => absurd hext (by simp [SchemaFile.isExtracted]))
  | archived archive relative =>
    obtain ⟨⟨file, findings⟩, d₁, hextract, h⟩ := outcome_bind_eq_ok.mp h
    obtain ⟨hresult, rfl⟩ := Prod.mk.inj h
    obtain rfl := Except.ok.inj hresult
    obtain ⟨rfl, hgrown, hfile⟩ := extract_spec hextract
    have hbelow : dir.components <+: (dir.join relative).components := by
      rw [Path.components_join hdir he]
      exact List.prefix_append _ _
    have hwritten : Advances d found d₁ found :=
      ⟨hgrown, List.prefix_rfl, List.prefix_rfl, fun hg => hg.grown hgrown⟩
    exact (hwritten.trans (.report d₁ found findings)).trans
      (.add (found.report findings) kind (hfile.directory hdir he) hbelow
        (fun hnot => absurd hnot (by simp [SchemaFile.isExtracted])) (fun _ => hfile))

/-- All files of a package. -/
theorem collectPackage_advances {r : Package.Resolved} (hd : d.IsProper)
    (h : outcome (collectPackage c kind found r) d = (.ok found', d')) :
    Advances d found d' found' := by
  obtain ⟨filter, d₁, hfilter, h⟩ := outcome_bind_eq_ok.mp h
  obtain rfl : d = d₁ := (Prod.mk.inj hfilter).2
  obtain ⟨⟨entries, findings⟩, d₁, hwalk, h⟩ := outcome_bind_eq_ok.mp h
  rw [outcome_runInspect] at hwalk
  obtain ⟨hentries, rfl⟩ := Prod.mk.inj hwalk
  have hsound := Package.Resolved.walk_sound hd hentries
  have hdir := extractionDirectory_text_ne_empty (c.workDir d) kind r.coordinate
  dsimp only at h
  rw [outcome_bind, outcome_get] at h
  refine foldlM_invariant (P := fun found' d' => Advances d found d' found')
    (fun e he found₁ d₁ found₂ d₂ hP hout => ?_) (.report d found findings) h
  exact hP.trans (collectEntry_advances (hP.grown.proper hd) ((hsound e he).grown hP.grown) hdir hout)

/-- Collecting keeps what the project's own directory gave. -/
theorem collect_advances {packages : List Package.Resolved} (hd : d.IsProper)
    (h : outcome (collect c packages) d = (.ok found, d')) :
    ∃ own, collectLocal d (c.sourceDir d) = .ok own ∧ Advances d own d' found := by
  obtain ⟨own, d₁, hlocal, h⟩ := outcome_bind_eq_ok.mp h
  rw [outcome_runInspect] at hlocal
  obtain ⟨hown, rfl⟩ := Prod.mk.inj hlocal
  obtain ⟨found₁, d₁, hdependencies, himports⟩ := outcome_bind_eq_ok.mp h
  have hpackages : ∀ (kind : ScanKind) (packages : List Package.Resolved) (found found' : Collected)
      (d₁ d₂ : Disk), Advances d own d₁ found →
      outcome (packages.foldlM (collectPackage c kind) found) d₁ = (.ok found', d₂) →
      Advances d own d₂ found' := by
    intro kind packages found found' d₁ d₂ hP hout
    refine foldlM_invariant (P := fun found d₁ => Advances d own d₁ found)
      (fun r _ found₁ d₁ found₂ d₂ hP hout => ?_) hP hout
    exact hP.trans (collectPackage_advances (hP.grown.proper hd) hout)
  exact ⟨own, hown, hpackages _ _ _ _ _ _ (hpackages _ _ _ _ _ _ (.refl d own) hdependencies) himports⟩

end Packages

end Sources

end ProtoForge
