import ProtoForge.Proofs.Files.CanonicalTexts
import ProtoForge.Proofs.Package.Confinement
import ProtoForge.Proofs.Sources.Untouched

/-!
# The same sources in a directory and in an archive

A directory is walked level by level and looks at the extensions of its files; an
archive is a list of names that is sorted in the end and looks at how they end.
The walks of a tree of files agree unless a file is called nothing but the
extension with its dot.
-/
namespace ProtoForge

open Files

namespace Path

theorem stemAndExtension_append {stem x : String} (hdot : '.' ∉ x.toList) (hstem : stem ≠ "") :
    stemAndExtension (stem ++ "." ++ x) = (stem, some x) := by
  have hreverse : (stem ++ "." ++ x).toList.reverse =
      x.toList.reverse ++ '.' :: stem.toList.reverse := by simp
  have hname : ∀ c ∈ x.toList.reverse, decide (c ≠ '.') = true := by
    intro c hc
    rw [decide_eq_true_iff]
    rintro rfl
    exact hdot (List.mem_reverse.mp hc)
  rw [stemAndExtension, List.span_eq_takeWhile_dropWhile, hreverse,
    List.takeWhile_append_of_pos hname, List.dropWhile_append_of_pos hname,
    List.takeWhile_cons_of_neg (by simp), List.dropWhile_cons_of_neg (by simp)]
  obtain ⟨b, rest, hrest⟩ := List.exists_cons_of_ne_nil
    (List.reverse_ne_nil_iff.mpr (mt String.toList_eq_nil_iff.mp hstem))
  rw [hrest, List.append_nil]
  dsimp only
  rw [← hrest, List.reverse_reverse, List.reverse_reverse, String.ofList_toList,
    String.ofList_toList]

/-- An extension comes after a dot that has something before it. -/
theorem eq_append_of_extension {s x : String} (h : (stemAndExtension s).2 = some x) :
    ∃ stem, stem ≠ "" ∧ s = stem ++ "." ++ x := by
  rw [stemAndExtension, List.span_eq_takeWhile_dropWhile] at h
  dsimp only at h
  have hsplit := List.takeWhile_append_dropWhile (p := fun c => decide (c ≠ '.'))
    (l := s.toList.reverse)
  have hhead := List.head?_dropWhile_not (fun c => decide (c ≠ '.')) s.toList.reverse
  rcases hdrop : s.toList.reverse.dropWhile (· ≠ '.') with _ | ⟨c, _ | ⟨b, rest⟩⟩
  · simp only [hdrop] at h
    cases h
  · simp only [hdrop] at h
    cases h
  · simp only [hdrop, Option.some.injEq] at h
    rw [hdrop] at hsplit hhead
    obtain rfl : c = '.' := by simpa using hhead
    refine ⟨String.ofList (b :: rest).reverse, by simp, ?_⟩
    have hs : s = String.ofList s.toList.reverse.reverse := by simp
    rw [hs, ← hsplit, ← h]
    simp [← String.toList_inj]

/-- A name ends in the extension of schema files with its dot if that is its extension, or all
there is. -/
theorem endsWith_extension_iff (s : String) :
    s.endsWith ".proto" = true ↔ (stemAndExtension s).2 = some "proto" ∨ s = ".proto" := by
  rw [endsWith_iff]
  constructor
  · rintro ⟨stem, rfl⟩
    by_cases hstem : stem = ""
    · subst hstem
      exact Or.inr rfl
    · have h := stemAndExtension_append (x := "proto") (by decide) hstem
      rw [String.append_assoc] at h
      exact Or.inl (congrArg Prod.snd h)
  · rintro (hextension | rfl)
    · obtain ⟨stem, -, rfl⟩ := eq_append_of_extension hextension
      exact ⟨stem, String.append_assoc⟩
    · exact ⟨"", rfl⟩
end Path

namespace Package

variable {d d' : Disk} {root archive : Path} {filter : Scan.Filter} {c c' : Coordinate}
  {l : Location} {listed : List ArchiveEntry} {tree : List (List String)} {names : List String}
  {s : String}

/-- A schema file is known by its last name. -/
theorem isSchemaFile_iff {p : Path} {cs : List Component} (hp : p.components = cs ++ [.name s]) :
    Sources.isSchemaFile p = true ↔ (Path.stemAndExtension s).2 = some "proto" := by
  rw [Sources.isSchemaFile, Path.extension?, Path.fileName?, hp, List.getLast?_concat, beq_iff_eq]
  rfl

/-- A schema name of an archive is known by its last piece. -/
theorem isSchemaName_ofPieces (hnames : ∀ t ∈ names ++ [s], '/' ∉ t.toList) :
    isSchemaName (Path.ofPieces (names ++ [s])) = true ↔ s.endsWith ".proto" = true := by
  rw [endsWith_iff_isSuffix]
  constructor
  · intro h
    obtain ⟨before, last, hpieces, hlast⟩ := pieces_of_isSchemaName h
    rw [Path.pieces_ofPieces hnames (by simp)] at hpieces
    obtain ⟨-, hsame⟩ := List.append_inj' hpieces rfl
    rwa [(List.cons_eq_cons.mp hsame).1]
  · intro h
    exact endsWith_iff_isSuffix.mpr (h.trans (Path.isSuffix_ofPieces names s))

/-- The two tests differ on nothing but the extension with its dot. -/
theorem isSchemaName_iff_isSchemaFile {p : Path} {cs : List Component} (hne : names ≠ [])
    (hnames : ∀ t ∈ names, '/' ∉ t.toList) (hp : p.components = cs ++ names.map .name) :
    isSchemaName (Path.ofPieces names) = true ↔
      Sources.isSchemaFile p = true ∨ names.getLast? = some ".proto" := by
  obtain ⟨before, s, rfl⟩ := (List.eq_nil_or_concat names).resolve_left hne
  rw [List.concat_eq_append] at hnames hp ⊢
  rw [List.map_append, ← List.append_assoc] at hp
  rw [isSchemaName_ofPieces hnames, isSchemaFile_iff hp, Path.endsWith_extension_iff,
    List.getLast?_concat, Option.some.injEq]

theorem components_pathOf_append (h : ∀ s ∈ l ++ names, Path.IsOrdinary s) :
    (Disk.pathOf (l ++ names)).components = (.root :: l.map .name) ++ names.map .name := by
  rw [Disk.components_pathOf h, List.map_append]
  rfl

theorem not_isSchemaFile_of_dotted {p : Path} {cs : List Component}
    (hp : p.components = cs ++ names.map .name) (hlast : names.getLast? = some ".proto") :
    Sources.isSchemaFile p = false := by
  obtain ⟨before, rfl⟩ := List.getLast?_eq_some_iff.mp hlast
  rw [List.map_append, ← List.append_assoc] at hp
  rw [Bool.eq_false_iff, ne_eq, isSchemaFile_iff hp]
  decide

/-- Names from the start of a package are safe. -/
theorem not_isUnsafe_ofPieces (hnames : ∀ s ∈ names, Path.IsOrdinary s)
    (hnul : ∀ s ∈ names, '\x00' ∉ s.toList) : ¬ IsUnsafe (Path.ofPieces names) := by
  have hcomponents := Path.components_ofNames hnames
  rintro (habsolute | hmem | ⟨first, hfirst, hup⟩)
  · rw [isAbsolute_iff_root_mem, hcomponents] at habsolute
    simp at habsolute
  · rcases Generation.mem_toList_ofPieces hmem with hslash | ⟨s, hs, hnul'⟩
    · exact absurd hslash (by decide)
    · exact hnul s hs hnul'
  · rw [hcomponents] at hfirst
    have hnone : ups first = 0 := List.countP_eq_zero.mpr fun k hk => by
      obtain ⟨s, -, rfl⟩ := List.mem_map.mp (hfirst.subset hk)
      simp
    omega

/-- Entries with safe names are selected by their names and sorted. -/
theorem walkArchive_of_safe (hopen : openArchive d archive = .ok listed)
    (hsafe : ∀ n ∈ (listed.map (·.name)).filter isSchemaName, ¬ IsUnsafe n) :
    walkArchive d archive filter c = .ok
      ((((((listed.map (·.name)).filter isSchemaName).map Path.mk).filter
        fun p => filter.passes p.text).mergeSort Path.le).map (.archived archive), []) := by
  have hfound : ((listed.map (·.name)).filter isSchemaName).map (enclosed c) =
      (((listed.map (·.name)).filter isSchemaName).map Path.mk).map .ok := by
    rw [List.map_map]
    exact List.map_congr_left fun n hn => by rw [enclosed_eq, if_neg (hsafe n hn)]; rfl
  rw [walkArchive, hopen]
  simp only [Except.mapError, Disk.ok_bind]
  rw [hfound, List.filterMap_map, List.filterMap_map]
  simp [Function.comp_def, Except.toOption, pure, Except.pure]

end Package

namespace Files.Disk

variable {d : Disk} {l : Location} {tree : List (List String)} {names : List String}

/-- The files below a location, by their names, in the order of a walk. -/
def filesBelow (d : Disk) (l : Location) : List (List String) :=
  ((d.below l).filter (·.2.isFile)).map (·.1)

/-- The files below a location are those of a tree. -/
def Holds (d : Disk) (l : Location) (tree : List (List String)) : Prop :=
  ∀ names, names ∈ tree ↔ names ≠ [] ∧ View.HasFile d.get? (l ++ names)

theorem IsProper.mem_filesBelow (hd : d.IsProper) :
    names ∈ d.filesBelow l ↔ names ≠ [] ∧ View.HasFile d.get? (l ++ names) := by
  rw [filesBelow, List.mem_map]
  constructor
  · rintro ⟨⟨names, x⟩, hmem, rfl⟩
    obtain ⟨hbelow, hfile⟩ := List.mem_filter.mp hmem
    obtain ⟨hne, hx⟩ := hd.mem_below.mp hbelow
    cases x with
    | file content m => exact ⟨hne, content, m, hx⟩
    | directory m => cases hfile
    | link t => cases hfile
  · rintro ⟨hne, content, m, hx⟩
    exact ⟨(names, .file content m), List.mem_filter.mpr ⟨hd.mem_below.mpr ⟨hne, hx⟩, rfl⟩, rfl⟩

theorem IsProper.nodup_filesBelow (hd : d.IsProper) (l : Location) : (d.filesBelow l).Nodup :=
  (hd.nodup_below l).sublist (List.filter_sublist.map _)

theorem sorted_filesBelow (d : Disk) (l : Location) :
    (d.filesBelow l).Pairwise fun a b => namesLe a b = true :=
  List.pairwise_map.mpr ((IsProper.sorted_below d l).sublist List.filter_sublist)

theorem IsProper.filesBelow_perm (hd : d.IsProper) (htree : tree.Nodup) (h : d.Holds l tree) :
    (d.filesBelow l).Perm tree :=
  (List.perm_ext_iff_of_nodup (hd.nodup_filesBelow l) htree).mpr fun names => by
    rw [hd.mem_filesBelow, h]

end Files.Disk

namespace Package

variable {d d' : Disk} {root archive : Path} {filter : Scan.Filter} {c c' : Coordinate}
  {l : Location} {listed : List ArchiveEntry} {tree : List (List String)}

/-- The entries of an archive, besides directories, are the files of a tree in some order. -/
def Lists (listed : List ArchiveEntry) (tree : List (List String)) : Prop :=
  ((listed.map (·.name)).filter fun n => !n.endsWith "/").Perm (tree.map Path.ofPieces)

/-- The sources of a directory, seen from it. -/
theorem walkDirectory_relative (filter : Scan.Filter) (hd : d.IsProper)
    (hlocate : d.locate root true = .ok l) (hl : d.HasDirectory l)
    (htext : Disk.checkText (Disk.pathOf l).text = .ok ()) :
    ∃ found, walkDirectory d root filter = .ok found ∧
      found.map (·.relativePath) = ((d.filesBelow l).filter fun names =>
        Sources.isSchemaFile (Disk.pathOf (l ++ names)) &&
          filter.passes (Path.ofPieces names)).map Path.ofNames := by
  have hbelow : ∀ e ∈ d.below l, (Disk.pathOf l).below e.1 = Disk.pathOf (l ++ e.1) ∧
      (SchemaEntry.onDisk (Disk.pathOf l) (Disk.pathOf (l ++ e.1))).relativePath =
        .ofNames e.1 := by
    rintro ⟨names, x⟩ he
    obtain ⟨hne, hx⟩ := hd.mem_below.mp he
    have hnames : ∀ s ∈ l ++ names, Path.IsOrdinary s := fun s hs =>
      (hd.isFileName (by simp [hx]) s hs).toIsOrdinary
    refine ⟨Disk.below_pathOf hnames, ?_⟩
    rw [SchemaEntry.relativePath, Disk.stripPrefix?_pathOf hnames hne, Option.getD_some]
  refine ⟨_, walkDirectory_of_directory hd hlocate hl htext, ?_⟩
  rw [Disk.walkBelow_eq, Disk.filesBelow]
  simp only [List.filter_map, List.map_map, List.filter_filter]
  rw [List.filter_congr (q := fun e => (Sources.isSchemaFile (Disk.pathOf (l ++ e.1)) &&
    filter.passes (Path.ofPieces e.1)) && e.2.isFile) fun e he => ?_]
  · refine List.map_congr_left fun e he => ?_
    obtain ⟨hpath, hrelative⟩ := hbelow e (List.mem_filter.mp he).1
    simp only [Function.comp_apply, hpath, hrelative]
  · obtain ⟨hpath, hrelative⟩ := hbelow e he
    simp only [Function.comp_apply, hpath, hrelative, Path.ofNames]
    rw [Bool.and_comm, Bool.and_assoc, Bool.and_comm]

theorem le_ofNames {a b : List String} (ha : ∀ s ∈ a, Path.IsOrdinary s)
    (hb : ∀ s ∈ b, Path.IsOrdinary s) :
    Path.le (.ofNames a) (.ofNames b) = Disk.namesLe a b := by
  rw [Path.le, Path.ofNames, Path.ofNames, Path.components_ofNames ha, Path.components_ofNames hb]
  clear ha hb
  induction a generalizing b with
  | nil => rfl
  | cons s a ih =>
    cases b with
    | nil => rfl
    | cons t b =>
      rw [List.map_cons, List.map_cons, Path.componentsLe, Disk.namesLe, ih]
      simp [Component.le]

/-- A schema name is not that of a directory. -/
theorem not_endsWith_slash {n : String} (h : isSchemaName n = true) : n.endsWith "/" = false := by
  rw [Bool.eq_false_iff]
  intro hslash
  have hshort := List.suffix_of_suffix_length_le (endsWith_iff_isSuffix.mp hslash)
    (endsWith_iff_isSuffix.mp h) (by decide)
  exact absurd hshort (by decide)

/-- The sources of an archive that lists a sorted tree. -/
theorem walkArchive_relative (filter : Scan.Filter) (c : Coordinate)
    (hopen : openArchive d archive = .ok listed)
    (hlists : Lists listed tree) (hsorted : tree.Pairwise fun a b => Disk.namesLe a b = true)
    (hnames : ∀ names ∈ tree, ∀ s ∈ names, Path.IsOrdinary s)
    (hnul : ∀ names ∈ tree, ∀ s ∈ names, '\x00' ∉ s.toList) :
    ∃ found, walkArchive d archive filter c = .ok (found, []) ∧
      found.map (·.relativePath) = (tree.filter fun names =>
        isSchemaName (Path.ofPieces names) && filter.passes (Path.ofPieces names)).map
          Path.ofNames := by
  obtain ⟨order, hlisted, horder⟩ : (Relation.Comp (· = List.map Path.ofPieces ·) List.Perm)
      ((listed.map (·.name)).filter fun n => !n.endsWith "/") tree := by
    rw [List.eq_map_comp_perm]
    exact hlists
  have hschema : (listed.map (·.name)).filter isSchemaName =
      (order.filter fun names => isSchemaName (Path.ofPieces names)).map Path.ofPieces := by
    have hfiles : ∀ n, (isSchemaName n && !n.endsWith "/") = isSchemaName n := fun n => by
      cases h : isSchemaName n
      · rfl
      · rw [not_endsWith_slash h]
        rfl
    rw [← List.filter_congr fun n _ => hfiles n, ← List.filter_filter, hlisted, List.filter_map]
    rfl
  refine ⟨_, walkArchive_of_safe hopen fun n hn => ?_, ?_⟩
  · rw [hschema] at hn
    obtain ⟨names, hmem, rfl⟩ := List.mem_map.mp hn
    have htree := horder.subset (List.mem_filter.mp hmem).1
    exact not_isUnsafe_ofPieces (hnames names htree) (hnul names htree)
  · set p := fun names => isSchemaName (Path.ofPieces names) && filter.passes (Path.ofPieces names)
    have hselected : ((((order.filter fun names => isSchemaName (Path.ofPieces names)).map
        Path.ofPieces).map Path.mk).filter fun q => filter.passes q.text) =
        (order.filter p).map Path.ofNames := by
      rw [List.map_map, List.filter_map, List.filter_filter]
      refine congrArg (List.map Path.ofNames) (List.filter_congr fun names _ => ?_)
      exact Bool.and_comm _ _
    have hsort : (order.filter p).mergeSort Disk.namesLe = tree.filter p := by
      refine List.Perm.eq_of_pairwise (fun a b _ _ => Disk.namesLe_antisymm a b)
        (List.pairwise_mergeSort Disk.namesLe_trans Disk.namesLe_total _)
        (hsorted.sublist List.filter_sublist) ?_
      exact (List.mergeSort_perm _ _).trans (horder.filter p)
    have hmem : ∀ names ∈ order.filter p, ∀ s ∈ names, Path.IsOrdinary s := fun names hnames' =>
      hnames names (horder.subset (List.mem_filter.mp hnames').1)
    rw [hschema, hselected, List.map_map, ← List.map_mergeSort fun a ha b hb =>
      (le_ofNames (hmem a ha) (hmem b hb)).symm, hsort]
    exact List.map_id _

/-- The tests of a directory and of an archive select the same of some files exactly if none that
passes the filter is called nothing but the extension with its dot. -/
theorem selections_eq_iff {files : List (List String)}
    (hfiles : ∀ names ∈ files, names ≠ [] ∧ ∀ s ∈ l ++ names, Path.IsOrdinary s) :
    (files.filter fun names => Sources.isSchemaFile (Disk.pathOf (l ++ names)) &&
        filter.passes (Path.ofPieces names)).map Path.ofNames =
      (files.filter fun names => isSchemaName (Path.ofPieces names) &&
        filter.passes (Path.ofPieces names)).map Path.ofNames ↔
      ∀ names ∈ files, names.getLast? = some ".proto" →
        filter.passes (Path.ofPieces names) = false := by
  have hordinary : ∀ names ∈ files, ∀ s ∈ names, Path.IsOrdinary s := fun names hmem s hs =>
    (hfiles names hmem).2 s (List.mem_append_right l hs)
  have hschema : ∀ names ∈ files, isSchemaName (Path.ofPieces names) = true ↔
      Sources.isSchemaFile (Disk.pathOf (l ++ names)) = true ∨ names.getLast? = some ".proto" :=
    fun names hmem => isSchemaName_iff_isSchemaFile (hfiles names hmem).1
      (fun s hs => (hordinary names hmem s hs).no_slash)
      (components_pathOf_append (hfiles names hmem).2)
  constructor
  · intro hsame names hmem hlast
    rw [Bool.eq_false_iff]
    intro hpasses
    -- the archive gives that file, so the directory has to
    have hin : Path.ofNames names ∈ (files.filter fun names =>
        isSchemaName (Path.ofPieces names) && filter.passes (Path.ofPieces names)).map
          Path.ofNames := by
      refine List.mem_map_of_mem (List.mem_filter.mpr ⟨hmem, ?_⟩)
      rw [(hschema names hmem).mpr (Or.inr hlast), hpasses]
      rfl
    rw [← hsame] at hin
    obtain ⟨names', hselected, heq⟩ := List.mem_map.mp hin
    obtain ⟨hmem', htests⟩ := List.mem_filter.mp hselected
    obtain rfl : names' = names := Path.ofPieces_inj (hordinary names' hmem')
      (hordinary names hmem) (Path.mk.inj heq)
    rw [not_isSchemaFile_of_dotted (components_pathOf_append (hfiles names' hmem).2) hlast]
      at htests
    cases htests
  · intro hdotted
    refine congrArg (List.map Path.ofNames) (List.filter_congr fun names hmem => ?_)
    by_cases hlast : names.getLast? = some ".proto"
    · rw [hdotted names hmem hlast, Bool.and_false, Bool.and_false]
    · have htests : Sources.isSchemaFile (Disk.pathOf (l ++ names)) =
          isSchemaName (Path.ofPieces names) :=
        Bool.eq_iff_iff.mpr (by simpa [hlast] using (hschema names hmem).symm)
      rw [htests]

/-- A directory and an archive with the files of one tree, the archive in any order, give the same
sources in the same order exactly if no file that passes the filter is called nothing but the
extension with its dot: only the archive gives that one. -/
theorem walks_agree_iff (hd : d.IsProper) (hlocate : d.locate root true = .ok l)
    (hl : d.HasDirectory l) (htext : Disk.checkText (Disk.pathOf l).text = .ok ())
    (htree : tree.Nodup) (hholds : d.Holds l tree)
    (hnul : ∀ names ∈ tree, ∀ s ∈ names, '\x00' ∉ s.toList)
    (hopen : openArchive d' archive = .ok listed) (hlists : Lists listed tree) :
    ∃ found archived,
      (Resolved.mk c (.directory root)).walk d filter = .ok (found, []) ∧
      (Resolved.mk c' (.archive archive)).walk d' filter = .ok (archived, []) ∧
      (found.map (·.relativePath) = archived.map (·.relativePath) ↔
        ∀ names ∈ tree, names.getLast? = some ".proto" →
          filter.passes (Path.ofPieces names) = false) := by
  have hperm := hd.filesBelow_perm htree hholds
  have hnames : ∀ names ∈ d.filesBelow l, names ≠ [] ∧ ∀ s ∈ l ++ names, Path.IsOrdinary s := by
    intro names hmem
    obtain ⟨hne, content, m, hx⟩ := hd.mem_filesBelow.mp hmem
    exact ⟨hne, fun s hs => (hd.isFileName (by simp [hx]) s hs).toIsOrdinary⟩
  obtain ⟨found, hfound, hrelative⟩ := walkDirectory_relative filter hd hlocate hl htext
  obtain ⟨archived, harchived, hrelative'⟩ := walkArchive_relative filter c' hopen
    (hlists.trans (hperm.map _).symm) (Disk.sorted_filesBelow d l)
    (fun names hmem s hs => (hnames names hmem).2 s (List.mem_append_right l hs))
    (fun names hmem => hnul names (hperm.subset hmem))
  refine ⟨found, archived, by simp [Resolved.walk, hfound], harchived, ?_⟩
  rw [hrelative, hrelative', selections_eq_iff hnames]
  exact ⟨fun h names hmem => h names (hperm.symm.subset hmem),
    fun h names hmem => h names (hperm.subset hmem)⟩

/-- A package directory with files of the given names. -/
def shelfDisk (names : List Location) : Disk :=
  ⟨(["p"], .directory 0o755) :: (["p", "a"], .directory 0o755) ::
    names.map fun n => ("p" :: n, .file (.bytes []) 0o644), []⟩

theorem holds_shelfDisk (hd : (shelfDisk tree).IsProper) (hne : [] ∉ tree) :
    (shelfDisk tree).Holds ["p"] tree := by
  intro names
  constructor
  · intro hmem
    refine ⟨fun h => hne (h ▸ hmem), .bytes [], 0o644, (hd.get?_eq_some_iff (by simp)).mpr ?_⟩
    exact List.mem_cons_of_mem _ (List.mem_cons_of_mem _ (List.mem_map.mpr ⟨names, hmem, rfl⟩))
  · rintro ⟨-, content, m, hx⟩
    have hentry := (hd.get?_eq_some_iff (by simp)).mp hx
    have hmem : names ∈ tree ∧ Content.bytes [] = content ∧ 0o644 = m := by
      simpa [shelfDisk] using hentry
    exact hmem.1

/-- A directory with a file next to a directory of its stem, and its archive in another order. -/
theorem shelf_agrees :
    let tree := [["a.proto"], ["a", "z.proto"], ["a", ".b.proto"], ["readme.txt"]]
    let listed := [⟨"readme.txt", []⟩, ⟨"a.proto", []⟩, ⟨"a/", []⟩, ⟨"a/z.proto", []⟩,
      ⟨"a/.b.proto", []⟩]
    (shelfDisk tree).IsProper ∧ (shelfDisk tree).Holds ["p"] tree ∧ Lists listed tree ∧
      ∃ found archived,
        (Resolved.mk ⟨"g", "a", none, none⟩ (.directory ⟨"/p"⟩)).walk (shelfDisk tree)
          .allowAll = .ok (found, []) ∧
        (Resolved.mk ⟨"g", "a", none, none⟩ (.archive ⟨"/t"⟩)).walk (archiveDisk listed)
          .allowAll = .ok (archived, []) ∧
        found.map (·.relativePath) = archived.map (·.relativePath) := by
  intro tree listed
  have hproper : (shelfDisk tree).IsProper :=
    Disk.isProper_of_entries (by decide) (by decide +kernel)
  have hholds := holds_shelfDisk hproper (by decide)
  have hlists : Lists listed tree := by
    rw [Lists]
    decide +kernel
  have hlocate : (shelfDisk tree).locate ⟨"/p"⟩ true = .ok ["p"] := by cbv
  have hopen : openArchive (archiveDisk listed) ⟨"/t"⟩ = .ok listed := by cbv
  obtain ⟨found, archived, hfound, harchived, hiff⟩ := walks_agree_iff hproper hlocate
    ⟨0o755, by decide⟩ (by cbv) (by decide) hholds (by decide) hopen hlists
  exact ⟨hproper, hholds, hlists, found, archived, hfound, harchived, hiff.mpr (by decide)⟩

/-- A file that is called nothing but the extension with its dot is a source of the archive and
none of the directory. -/
theorem dotted_file_only_archived :
    let listed := [⟨".proto", []⟩]
    (shelfDisk [[".proto"]]).Holds ["p"] [[".proto"]] ∧ Lists listed [[".proto"]] ∧
      (Resolved.mk ⟨"g", "a", none, none⟩ (.directory ⟨"/p"⟩)).walk (shelfDisk [[".proto"]])
        .allowAll = .ok ([], []) ∧
      (Resolved.mk ⟨"g", "a", none, none⟩ (.archive ⟨"/t"⟩)).walk (archiveDisk listed)
        .allowAll = .ok ([.archived ⟨"/t"⟩ ⟨".proto"⟩], []) := by
  intro listed
  have hproper : (shelfDisk [[".proto"]]).IsProper :=
    Disk.isProper_of_entries (by decide) (by decide +kernel)
  have hlists : Lists listed [[".proto"]] := by
    rw [Lists]
    decide +kernel
  have hholds := holds_shelfDisk hproper (by decide)
  have hlocate : (shelfDisk [[".proto"]]).locate ⟨"/p"⟩ true = .ok ["p"] := by cbv
  obtain ⟨found, hfound, hrelative⟩ := walkDirectory_relative .allowAll hproper hlocate
    ⟨0o755, by decide⟩ (by cbv)
  have hfiles : (shelfDisk [[".proto"]]).filesBelow ["p"] = [[".proto"]] :=
    List.perm_singleton.mp (hproper.filesBelow_perm (by decide) hholds)
  have hnone : found = [] := by
    rw [hfiles] at hrelative
    exact List.map_eq_nil_iff.mp (hrelative.trans (by cbv))
  exact ⟨hholds, hlists, by simp [Resolved.walk, hfound, hnone], by cbv⟩

end Package

end ProtoForge
