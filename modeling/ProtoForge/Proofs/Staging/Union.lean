import Mathlib
import ProtoForge.Proofs.Staging.Names

/-!
# Staging as a union

Staging lays directories over each other. Of all copies of a name the view
keeps the one of the first directory that has it, and the findings are what
the walks meet besides: links, and later copies that differ.
-/
namespace ProtoForge.Staging

open Files ProtoForge.Path

/-- What lies below a directory under a name. Links on the way to the directory are followed,
links below it are not. -/
def entryBelow? (d : Disk) (dir : Path) (name : String) : Option Entry :=
  match d.locate dir true with
  | .ok l => d.get? (l ++ pieces name)
  | .error _ => none

/-- How a file is staged. -/
def stagedFile? : Entry → Option StagedFile
  | .file c mode => some ⟨c.toBytes, some mode⟩
  | _ => none

/-- How a directory is staged. -/
def stagedMode? : Entry → Option (Option Nat)
  | .directory mode => some (some mode)
  | _ => none

/-- The file of a name in the first of several directories that has one. -/
def firstFile? (d : Disk) (dirs : List Path) (name : String) : Option StagedFile :=
  dirs.findSome? fun dir => (entryBelow? d dir name).bind stagedFile?

/-- The permissions of a name in the first of several directories that has a directory there. -/
def firstMode? (d : Disk) (dirs : List Path) (name : String) : Option (Option Nat) :=
  dirs.findSome? fun dir => (entryBelow? d dir name).bind stagedMode?

/-- What walks through several directories meet, with the directory of each entry. -/
def met (d : Disk) (dirs : List Path) : List (Path × WalkEntry) :=
  dirs.flatMap fun dir => ((d.walk dir).toOption.getD []).map fun e => (dir, e)

/-- The name under which an entry of a directory is staged. -/
def nameOf (e : Path × WalkEntry) : String := Staged.nameBelow e.1 e.2.path

/-- What an entry gives rise to, besides a place in the view: a link is left out, and so is a
file that differs from the copy that is kept. -/
def finding? (kept : String → Option StagedFile) (e : Path × WalkEntry) : Option Diagnostic :=
  match e.2.entry with
  | .link _ => some (.symlinkSkipped e.2.path.text)
  | .directory _ => none
  | .file c _ =>
      match kept (nameOf e) with
      | some f => if f.bytes = c.toBytes then none else some (.shadowed (nameOf e) e.2.path.text)
      | none => none

/-- A view that is the union of directories, of which earlier ones win. -/
structure IsUnion (d : Disk) (dirs : List Path) (s : Staged) : Prop where
  files : ∀ name, s.view.get? name = firstFile? d dirs name
  directories : ∀ name, s.view.directories.get? name = firstMode? d dirs name
  diagnostics : s.diagnostics = (met d dirs).filterMap (finding? (firstFile? d dirs))
  rootNames : s.rootNames = []

/-- A walk meets each name below a directory once. -/
structure MeetsOnce (d : Disk) (dir : Path) : Prop where
  distinct : ((met d [dir]).map nameOf).Nodup
  mem : ∀ name x, name ≠ "" → ((∃ e ∈ met d [dir], nameOf e = name ∧ e.2.entry = x) ↔
    entryBelow? d dir name = some x)
  path : ∀ e ∈ met d [dir], nameOf e ≠ "" → e.2.path = dir.below (pieces (nameOf e))

variable {d : Disk} {dir : Path} {dirs : List Path} {l : Location} {x : Entry} {name : String}
  {s s' : Staged} {e : Path × WalkEntry} {seen items before after : List (Path × WalkEntry)}
  {kept : String → Option StagedFile} {c : Content} {mode : ℕ} {α : Type} {pick : Entry → Option α}

namespace Staged

theorem addEntry_link {t : String} (hx : e.2.entry = .link t) (s : Staged) :
    s.addEntry e.1 e.2 = s.report (.symlinkSkipped e.2.path.text) := by
  rw [addEntry, hx]

/-- A directory itself has no name in the view. -/
theorem addEntry_unnamed (hx : ∀ t, e.2.entry ≠ .link t) (hname : nameOf e = "") (s : Staged) :
    s.addEntry e.1 e.2 = s := by
  rw [addEntry]
  cases hentry : e.2.entry with
  | link t => exact absurd hentry (hx t)
  | directory mode => exact if_pos hname
  | file c mode => exact if_pos hname

theorem addEntry_directory (hx : e.2.entry = .directory mode) (hname : nameOf e ≠ "")
    (s : Staged) :
    s.addEntry e.1 e.2 = { s with view := s.view.addDirectory (nameOf e) (some mode) } := by
  rw [addEntry, hx]
  exact if_neg hname

theorem addEntry_first (hx : e.2.entry = .file c mode) (hname : nameOf e ≠ "")
    (hold : s.view.get? (nameOf e) = none) :
    s.addEntry e.1 e.2 =
      { s with view := s.view.addFile (nameOf e) ⟨c.toBytes, some mode⟩ } := by
  rw [nameOf] at hname hold
  rw [addEntry, hx]
  simp only [if_neg hname, hold]
  rfl

theorem addEntry_later {old : StagedFile} (hx : e.2.entry = .file c mode) (hname : nameOf e ≠ "")
    (hold : s.view.get? (nameOf e) = some old) :
    s.addEntry e.1 e.2 =
      if old.bytes = c.toBytes then s else s.report (.shadowed (nameOf e) e.2.path.text) := by
  rw [nameOf] at hname hold
  rw [addEntry, hx]
  simp only [if_neg hname, hold]
  rfl

end Staged

theorem View.get?_addFile (v : View) (name other : String) (file : StagedFile) :
    (v.addFile name file).get? other = if other = name then some file else v.get? other := by
  have hfiles : ∀ (parents : List String) (v : View),
      (parents.foldl (fun v dir => v.addDirectory dir none) v).files = v.files := by
    intro parents
    induction parents with
    | nil => exact fun _ => rfl
    | cons parent parents ih => exact fun v => ih (v.addDirectory parent none)
  rw [View.get?, View.addFile, OrderedMap.get?_insert, hfiles]
  rfl

/-- A file whose directories are known adds none. -/
theorem View.directories_addFile {v : View} {file : StagedFile}
    (h : ∀ parent ∈ View.parentNames name, (v.directories.get? parent).isSome) :
    (v.addFile name file).directories = v.directories := by
  have hparents : ∀ parents : List String,
      (∀ parent ∈ parents, (v.directories.get? parent).isSome) →
      parents.foldl (fun v dir => v.addDirectory dir none) v = v := by
    intro parents hall
    induction parents with
    | nil => rfl
    | cons parent parents ih =>
      have hknown : v.addDirectory parent none = v := by
        have hcontains : v.directories.contains parent = true := hall parent List.mem_cons_self
        rw [View.addDirectory, OrderedMap.insertNew, if_pos hcontains]
      rw [List.foldl_cons, hknown]
      exact ih fun q hq => hall q (List.mem_cons_of_mem parent hq)
  rw [View.addFile, hparents _ h]

/-- What an entry offers under a name. -/
def offered? (pick : Entry → Option α) (name : String) (e : Path × WalkEntry) : Option α :=
  if nameOf e = name ∧ name ≠ "" then pick e.2.entry else none

theorem offered?_self (he : nameOf e = name) (hname : name ≠ "") :
    offered? pick name e = pick e.2.entry := by
  rw [offered?, if_pos ⟨he, hname⟩]

theorem offered?_of_ne (hname : nameOf e ≠ name) : offered? pick name e = none := by
  rw [offered?, if_neg fun h => hname h.1]

theorem offered?_unnamed (he : nameOf e = "") (name : String) : offered? pick name e = none := by
  rw [offered?, if_neg]
  rintro ⟨rfl, hne⟩
  exact hne he

theorem offered?_of_pick (h : pick e.2.entry = none) (name : String) :
    offered? pick name e = none := by
  rw [offered?]
  split_ifs
  · exact h
  · rfl

theorem findSome?_concat (seen : List (Path × WalkEntry)) (e : Path × WalkEntry)
    (f : Path × WalkEntry → Option α) :
    (seen ++ [e]).findSome? f = (seen.findSome? f).or (f e) := by
  rw [List.findSome?_append, List.findSome?_singleton]

/-- Every file comes after the directories that hold it. -/
def ParentsFirst (items : List (Path × WalkEntry)) : Prop :=
  ∀ before e after, items = before ++ e :: after → (stagedFile? e.2.entry).isSome →
    ∀ parent ∈ View.parentNames (nameOf e),
      (before.findSome? (offered? stagedMode? parent)).isSome

/-- A view after some entries were added, told by the entries. -/
structure Laid (kept : String → Option StagedFile) (seen : List (Path × WalkEntry))
    (s : Staged) : Prop where
  files : ∀ name, s.view.get? name = seen.findSome? (offered? stagedFile? name)
  directories : ∀ name, s.view.directories.get? name = seen.findSome? (offered? stagedMode? name)
  diagnostics : s.diagnostics = seen.filterMap (finding? kept)
  rootNames : s.rootNames = []

theorem laid_start (kept : String → Option StagedFile) : Laid kept [] {} where
  files := by simp [View.get?, OrderedMap.get?]
  directories := by simp [OrderedMap.get?]
  diagnostics := rfl
  rootNames := rfl

/-- An entry that offers nothing shows in the findings only. -/
theorem Laid.addFinding (h : Laid kept seen s) (hfile : ∀ name, offered? stagedFile? name e = none)
    (hmode : ∀ name, offered? stagedMode? name e = none) (hview : s'.view = s.view)
    (hroots : s'.rootNames = s.rootNames)
    (hfinding : s'.diagnostics = s.diagnostics ++ (finding? kept e).toList) :
    Laid kept (seen ++ [e]) s' := by
  refine ⟨fun n => ?_, fun n => ?_, ?_, hroots.trans h.rootNames⟩
  · rw [hview, findSome?_concat, hfile, Option.or_none, h.files]
  · rw [hview, findSome?_concat, hmode, Option.or_none, h.directories]
  · rw [hfinding, h.diagnostics, List.filterMap_append]
    cases hf : finding? kept e <;> simp [hf]

/-- A directory offers its mode, unless it has no name. -/
theorem Laid.addDirectory (h : Laid kept seen s) (hx : e.2.entry = .directory mode) :
    Laid kept (seen ++ [e]) (s.addEntry e.1 e.2) := by
  have hfile : stagedFile? e.2.entry = none := by rw [hx]; rfl
  have hmode : stagedMode? e.2.entry = some (some mode) := by rw [hx]; rfl
  have hfinding : finding? kept e = none := by rw [finding?, hx]
  by_cases hname : nameOf e = ""
  · rw [Staged.addEntry_unnamed (by simp [hx]) hname]
    refine h.addFinding (offered?_of_pick hfile) (offered?_unnamed hname) rfl rfl ?_
    simp [hfinding]
  · rw [Staged.addEntry_directory hx hname]
    refine ⟨fun n => ?_, fun n => ?_, ?_, h.rootNames⟩
    · rw [findSome?_concat, offered?_of_pick hfile, Option.or_none]
      exact h.files n
    · dsimp only [View.addDirectory]
      rw [findSome?_concat, OrderedMap.get?_insertNew, h.directories]
      by_cases hn : n = nameOf e
      · rw [if_pos hn, offered?_self hn.symm (hn ▸ hname), hmode]
      · rw [if_neg hn, offered?_of_ne (Ne.symm hn)]
    · simp [h.diagnostics, hfinding]

/-- A file with a name is staged, or an earlier one of that name wins. -/
theorem Laid.addFile (h : Laid kept seen s) (hx : e.2.entry = .file c mode) (hname : nameOf e ≠ "")
    (hparents : ∀ parent ∈ View.parentNames (nameOf e),
      (seen.findSome? (offered? stagedMode? parent)).isSome)
    (hkept : ∀ name f, (seen ++ [e]).findSome? (offered? stagedFile? name) = some f →
      kept name = some f) : Laid kept (seen ++ [e]) (s.addEntry e.1 e.2) := by
  have hfile : stagedFile? e.2.entry = some ⟨c.toBytes, some mode⟩ := by rw [hx]; rfl
  have hmode : stagedMode? e.2.entry = none := by rw [hx]; rfl
  have hlast := findSome?_concat seen e (offered? stagedFile? (nameOf e))
  rw [offered?_self rfl hname, ← h.files, hfile] at hlast
  have hdirectories : ∀ n, (seen ++ [e]).findSome? (offered? stagedMode? n) =
      s.view.directories.get? n := by
    intro n
    rw [findSome?_concat, offered?_of_pick hmode, Option.or_none, h.directories]
  have hothers : ∀ n, n ≠ nameOf e →
      (seen ++ [e]).findSome? (offered? stagedFile? n) = s.view.get? n := by
    intro n hn
    rw [findSome?_concat, offered?_of_ne (Ne.symm hn), Option.or_none, h.files]
  cases hold : s.view.get? (nameOf e) with
  | some old =>
    -- the name is taken, so this copy shows in the findings at most
    have hwins : kept (nameOf e) = some old := hkept _ old (by rw [hlast, hold]; rfl)
    have hfinding : finding? kept e =
        if old.bytes = c.toBytes then none else some (.shadowed (nameOf e) e.2.path.text) := by
      rw [finding?, hx]
      simp [hwins]
    have hfiles : ∀ n, s.view.get? n = (seen ++ [e]).findSome? (offered? stagedFile? n) := by
      intro n
      by_cases hn : n = nameOf e
      · rw [hn, hlast, hold]
        rfl
      · rw [hothers n hn]
    rw [Staged.addEntry_later hx hname hold]
    by_cases hbytes : old.bytes = c.toBytes
    · rw [if_pos hbytes]
      refine ⟨hfiles, fun n => (hdirectories n).symm, ?_, h.rootNames⟩
      simp [h.diagnostics, hfinding, hbytes]
    · rw [if_neg hbytes]
      refine ⟨hfiles, fun n => (hdirectories n).symm, ?_, h.rootNames⟩
      simp [Staged.report, h.diagnostics, hfinding, hbytes]
  | none =>
    have hwins : kept (nameOf e) = some ⟨c.toBytes, some mode⟩ :=
      hkept _ _ (by rw [hlast, hold]; rfl)
    have hfinding : finding? kept e = none := by
      rw [finding?, hx]
      simp [hwins]
    rw [Staged.addEntry_first hx hname hold]
    refine ⟨fun n => ?_, fun n => ?_, ?_, h.rootNames⟩
    · dsimp only
      rw [View.get?_addFile]
      by_cases hn : n = nameOf e
      · rw [if_pos hn, hn, hlast, hold]
        rfl
      · rw [if_neg hn, hothers n hn]
    · dsimp only
      rw [View.directories_addFile fun parent hparent => ?_, hdirectories]
      rw [h.directories]
      exact hparents parent hparent
    · simp [h.diagnostics, hfinding]

/-- One more entry. -/
theorem Laid.addEntry (h : Laid kept seen s)
    (hparents : (stagedFile? e.2.entry).isSome → ∀ parent ∈ View.parentNames (nameOf e),
      (seen.findSome? (offered? stagedMode? parent)).isSome)
    (hkept : ∀ name f, (seen ++ [e]).findSome? (offered? stagedFile? name) = some f →
      kept name = some f)
    (hempty : kept "" = none) : Laid kept (seen ++ [e]) (s.addEntry e.1 e.2) := by
  cases hx : e.2.entry with
  | link t =>
    have hfile : stagedFile? e.2.entry = none := by rw [hx]; rfl
    have hmode : stagedMode? e.2.entry = none := by rw [hx]; rfl
    rw [Staged.addEntry_link hx]
    refine h.addFinding (offered?_of_pick hfile) (offered?_of_pick hmode) rfl rfl ?_
    rw [finding?, hx]
    rfl
  | directory mode => exact h.addDirectory hx
  | file c mode =>
    by_cases hname : nameOf e = ""
    · have hmode : stagedMode? e.2.entry = none := by rw [hx]; rfl
      have hfinding : finding? kept e = none := by
        rw [finding?, hx]
        simp [hname, hempty]
      rw [Staged.addEntry_unnamed (by simp [hx]) hname]
      refine h.addFinding (offered?_unnamed hname) (offered?_of_pick hmode) rfl rfl ?_
      simp [hfinding]
    · exact h.addFile hx hname (hparents (by rw [hx]; rfl)) hkept

/-- A run over entries of which directories come first. -/
theorem laid_foldl (hfirst : ParentsFirst items)
    (hkept : ∀ name f, items.findSome? (offered? stagedFile? name) = some f → kept name = some f)
    (hempty : kept "" = none) :
    Laid kept items (items.foldl (fun s e => s.addEntry e.1 e.2) {}) := by
  induction items using List.reverseRecOn with
  | nil => exact laid_start kept
  | append_singleton items e ih =>
    have hfirst' : ParentsFirst items := by
      intro before e' after heq
      exact hfirst before e' (after ++ [e]) (by rw [heq]; simp)
    have hkept' : ∀ name f, items.findSome? (offered? stagedFile? name) = some f →
        kept name = some f := by
      intro name f hf
      exact hkept name f (by rw [findSome?_concat, hf]; rfl)
    rw [List.foldl_append]
    exact (ih hfirst' hkept').addEntry (hfirst items e [] rfl) hkept hempty

/-- What is staged under a name lies below a directory along the pieces of the name. -/
theorem mem_below_pieces (hd : d.IsProper) :
    (∃ names, ofPieces names = name ∧ (names, x) ∈ d.below l) ↔
      name ≠ "" ∧ d.get? (l ++ pieces name) = some x := by
  constructor
  · rintro ⟨names, rfl, hmem⟩
    obtain ⟨hne, hx⟩ := hd.mem_below.mp hmem
    have hnames : ∀ s ∈ names, IsOrdinary s := fun s hs => (hd.isFileName_of_below hx s hs).toIsOrdinary
    have hpieces := pieces_ofNames hne hnames
    refine ⟨fun hempty => ?_, by rw [hpieces]; exact hx⟩
    rw [hempty, pieces_empty] at hpieces
    exact (hnames "" (by rw [← hpieces]; exact List.mem_cons_self)).ne_empty rfl
  · rintro ⟨-, hx⟩
    exact ⟨pieces name, Generation.ofPieces_pieces name, hd.mem_below.mpr ⟨pieces_ne_nil name, hx⟩⟩

theorem get?_empty_below (hd : d.IsProper) (l : Location) : d.get? (l ++ pieces "") = none := by
  by_contra hne
  obtain ⟨x, hx⟩ := Option.ne_none_iff_exists'.mp hne
  have hlegal := hd.isFileName_of_below hx "" (by rw [pieces_empty]; exact List.mem_cons_self)
  exact hlegal.ne_empty rfl

theorem met_append (d : Disk) (dirs more : List Path) :
    met d (dirs ++ more) = met d dirs ++ met d more :=
  List.flatMap_append

/-- What a walk meets below a directory, with the names. -/
def metBelow (d : Disk) (dir : Path) (l : Location) (top : Entry) : List (Path × WalkEntry) :=
  (dir, ⟨dir, top⟩) :: (d.below l).map fun e => (dir, ⟨dir.below e.1, e.2⟩)

theorem met_of_walk (hd : d.IsProper) (h : ∃ entries, d.walk dir = .ok entries) :
    ∃ l top, d.locate dir true = .ok l ∧ met d [dir] = metBelow d dir l top := by
  obtain ⟨entries, hwalk⟩ := h
  obtain ⟨l, top, hlocate, -, rfl⟩ := hd.walk_eq_ok hwalk
  refine ⟨l, top, hlocate, ?_⟩
  simp [met, hwalk, Except.toOption, metBelow, Disk.walkBelow_eq, Function.comp_def]

/-- The entries below a directory are staged under the names that lead to them. -/
theorem nameOf_below (hd : d.IsProper) (hlocate : d.locate dir true = .ok l) {names : List String}
    (hmem : (names, x) ∈ d.below l) : nameOf (dir, ⟨dir.below names, x⟩) = ofPieces names := by
  obtain ⟨-, hx⟩ := hd.mem_below.mp hmem
  exact Staged.nameBelow_below (Disk.text_ne_empty_of_locate hlocate) fun s hs =>
    (hd.isFileName_of_below hx s hs).toIsOrdinary

theorem mem_met (hd : d.IsProper) {top : Entry} (hlocate : d.locate dir true = .ok l)
    (hname : name ≠ "") :
    (∃ e ∈ metBelow d dir l top, nameOf e = name ∧ e.2.entry = x) ↔
      d.get? (l ++ pieces name) = some x := by
  have hbelow : (∃ names, ofPieces names = name ∧ (names, x) ∈ d.below l) ↔
      name ≠ "" ∧ d.get? (l ++ pieces name) = some x := mem_below_pieces hd
  rw [and_iff_right hname] at hbelow
  rw [← hbelow]
  constructor
  · rintro ⟨e, hmem, hof, rfl⟩
    rcases List.mem_cons.mp hmem with rfl | hmem
    · exact absurd (hof.symm.trans (Staged.nameBelow_self dir)) hname
    · obtain ⟨⟨names, y⟩, hin, rfl⟩ := List.mem_map.mp hmem
      exact ⟨names, (nameOf_below hd hlocate hin).symm.trans hof, hin⟩
  · rintro ⟨names, rfl, hmem⟩
    exact ⟨(dir, ⟨dir.below names, x⟩), List.mem_cons_of_mem _ (List.mem_map_of_mem hmem),
      nameOf_below hd hlocate hmem, rfl⟩

/-- Among entries of which one gives a value under a name and no other gives another. -/
theorem findSome?_eq_of_mem {β : Type} {f : β → Option α} {xs : List β} {y : β} (hy : y ∈ xs)
    (h : ∀ z ∈ xs, f z = none ∨ f z = f y) : xs.findSome? f = f y := by
  cases hall : xs.findSome? f with
  | none => exact ((List.findSome?_eq_none_iff.mp hall) y hy).symm
  | some a =>
    obtain ⟨z, hz, hfz⟩ := List.exists_of_findSome?_eq_some hall
    rcases h z hz with hnone | hsame
    · simp [hnone] at hfz
    · rw [← hsame, hfz]

/-- A walk offers what lies below the directory. -/
theorem findSome?_met (hd : d.IsProper) {top : Entry} (hlocate : d.locate dir true = .ok l)
    (pick : Entry → Option α) (name : String) :
    (metBelow d dir l top).findSome? (offered? pick name) = (d.get? (l ++ pieces name)).bind pick := by
  by_cases hname : name = ""
  · rw [hname, get?_empty_below hd, List.findSome?_eq_none_iff.mpr]
    · rfl
    · intro e _
      rw [offered?, if_neg (by simp)]
  cases hx : d.get? (l ++ pieces name) with
  | none =>
    refine List.findSome?_eq_none_iff.mpr fun e he => offered?_of_ne fun hof => ?_
    have hsome := (mem_met hd (x := e.2.entry) hlocate hname).mp ⟨e, he, hof, rfl⟩
    rw [hx] at hsome
    cases hsome
  | some x =>
    obtain ⟨e, he, hof, hentry⟩ : ∃ e ∈ metBelow d dir l top, nameOf e = name ∧ e.2.entry = x :=
      (mem_met hd hlocate hname).mpr hx
    rw [findSome?_eq_of_mem he, offered?_self hof hname, hentry]
    · rfl
    · intro e' he'
      by_cases hof' : nameOf e' = name
      · right
        have hsome := (mem_met hd (x := e'.2.entry) hlocate hname).mp ⟨e', he', hof', rfl⟩
        rw [hx, Option.some.injEq] at hsome
        rw [offered?_self hof hname, offered?_self hof' hname, hentry, hsome]
      · exact Or.inl (offered?_of_ne hof')

theorem parentsFirst_append {xs ys : List (Path × WalkEntry)} (hxs : ParentsFirst xs)
    (hys : ParentsFirst ys) : ParentsFirst (xs ++ ys) := by
  intro before e after heq hfile parent hparent
  obtain ⟨more, rfl, htail⟩ | ⟨more, rfl, htail⟩ := List.append_eq_append_iff.mp heq
  · have hsome := hys more e after htail hfile parent hparent
    rw [List.findSome?_append, Option.isSome_or, hsome, Bool.or_true]
  · cases more with
    | nil =>
      have hsome := hys [] e after htail.symm hfile parent hparent
      simp at hsome
    | cons f more =>
      obtain ⟨rfl, rfl⟩ := List.cons_eq_cons.mp htail
      exact hxs before e more rfl hfile parent hparent

/-- A walk meets the directories that hold a file before the file. -/
theorem parentsFirst_metBelow (hd : d.IsProper) {top : Entry} (hlocate : d.locate dir true = .ok l) :
    ParentsFirst (metBelow d dir l top) := by
  intro before e after heq hfile parent hparent
  cases before with
  | nil =>
    obtain ⟨rfl, -⟩ := List.cons_eq_cons.mp heq
    have hempty : nameOf (dir, WalkEntry.mk dir top) = ofPieces [] := Staged.nameBelow_self dir
    rw [hempty, View.mem_parentNames (by simp)] at hparent
    obtain ⟨ps, rest, hps, -, hnil, -⟩ := hparent
    exact absurd (List.append_eq_nil_iff.mp hnil.symm).1 hps
  | cons first before =>
    obtain ⟨rfl, hrest⟩ := List.cons_eq_cons.mp heq
    obtain ⟨before, tail, hbelow, rfl, htail⟩ := List.map_eq_append_iff.mp hrest
    obtain ⟨⟨names, x⟩, after, rfl, rfl, rfl⟩ := List.map_eq_cons_iff.mp htail
    have hmem : (names, x) ∈ d.below l := by rw [hbelow]; simp
    have hlegal : ∀ s ∈ names, IsOrdinary s := fun s hs =>
      (hd.isFileName_of_below (hd.mem_below.mp hmem).2 s hs).toIsOrdinary
    rw [nameOf_below hd hlocate hmem, View.mem_parentNames hlegal] at hparent
    obtain ⟨ps, rest, hps, hne, rfl, rfl⟩ := hparent
    obtain ⟨m, hm⟩ := hd.directory_before hbelow hps hne rfl
    have hbelow' : (ps, Entry.directory m) ∈ d.below l := by
      rw [hbelow]
      exact List.mem_append_left _ hm
    have hname := nameOf_below hd hlocate hbelow'
    have hps' : ofPieces ps ≠ "" := ((mem_below_pieces hd).mp ⟨ps, rfl, hbelow'⟩).1
    rw [List.findSome?_isSome_iff]
    refine ⟨_, List.mem_cons_of_mem _ (List.mem_map_of_mem hm), ?_⟩
    rw [offered?_self hname hps']
    rfl

/-- What the walks through several directories meet. -/
theorem met_spec (hd : d.IsProper) (hwalks : ∀ dir ∈ dirs, ∃ entries, d.walk dir = .ok entries) :
    ParentsFirst (met d dirs) ∧ ∀ (α : Type) (pick : Entry → Option α) name,
      (met d dirs).findSome? (offered? pick name) =
        dirs.findSome? fun dir => (entryBelow? d dir name).bind pick := by
  induction dirs with
  | nil => exact ⟨by simp [ParentsFirst, met], fun _ _ _ => rfl⟩
  | cons dir dirs ih =>
    obtain ⟨hfirst, hpick⟩ := ih fun dir hdir => hwalks dir (List.mem_cons_of_mem _ hdir)
    obtain ⟨l, top, hlocate, hmet⟩ := met_of_walk hd (hwalks dir List.mem_cons_self)
    rw [← List.singleton_append, met_append, hmet]
    refine ⟨parentsFirst_append (parentsFirst_metBelow hd hlocate) hfirst, fun α pick name => ?_⟩
    rw [List.findSome?_append, List.findSome?_append, hpick, findSome?_met hd hlocate,
      List.findSome?_singleton, entryBelow?, hlocate]

/-- Directories are laid over each other when all of them can be walked. -/
theorem overlays_eq_ok (s : Staged) :
    dirs.foldlM (Staged.overlay d) s = .ok s' ↔
      (∀ dir ∈ dirs, ∃ entries, d.walk dir = .ok entries) ∧
        s' = (met d dirs).foldl (fun s e => s.addEntry e.1 e.2) s := by
  induction dirs generalizing s with
  | nil =>
    simp only [List.foldlM_nil, List.not_mem_nil, false_implies, implies_true, true_and]
    exact ⟨fun h => (Except.ok.inj h).symm, fun h => by rw [h]; rfl⟩
  | cons dir dirs ih =>
    rw [List.foldlM_cons, Staged.overlay, ← List.singleton_append, met_append, List.foldl_append]
    cases hwalk : d.walk dir with
    | error f =>
      constructor
      · intro h
        cases h
      · rintro ⟨h, -⟩
        obtain ⟨entries, hentries⟩ := h dir List.mem_cons_self
        rw [hwalk] at hentries
        cases hentries
    | ok entries =>
      have hmet : (met d [dir]).foldl (fun s e => s.addEntry e.1 e.2) s =
          entries.foldl (Staged.addEntry dir) s := by
        simp [met, hwalk, Except.toOption, List.foldl_map]
      have hstep : (do
          let entries ← (Except.ok entries : Except Fault (List WalkEntry)).mapError (.staging dir)
          pure (entries.foldl (Staged.addEntry dir) s) : Except Failure Staged) =
          .ok (entries.foldl (Staged.addEntry dir) s) := rfl
      rw [hstep, hmet]
      refine (ih (entries.foldl (Staged.addEntry dir) s)).trans (and_congr_left fun _ => ?_)
      simp [hwalk]

/-- Directories that can be walked are staged as their union. -/
theorem isUnion_of_overlays (hd : d.IsProper) (h : dirs.foldlM (Staged.overlay d) {} = .ok s) :
    IsUnion d dirs s := by
  obtain ⟨hwalks, rfl⟩ := (overlays_eq_ok {}).mp h
  obtain ⟨hfirst, hpick⟩ := met_spec hd hwalks
  have hfiles : ∀ name, (met d dirs).findSome? (offered? stagedFile? name) = firstFile? d dirs name :=
    fun name => hpick StagedFile stagedFile? name
  have hempty : firstFile? d dirs "" = none := by
    rw [← hfiles, List.findSome?_eq_none_iff]
    intro e _
    rw [offered?, if_neg (by simp)]
  have hkept : ∀ name f, (met d dirs).findSome? (offered? stagedFile? name) = some f →
      firstFile? d dirs name = some f := fun name f hf => by rw [← hfiles, hf]
  have hlaid := laid_foldl hfirst hkept hempty
  exact ⟨fun name => (hlaid.files name).trans (hfiles name),
    fun name => (hlaid.directories name).trans (hpick _ stagedMode? name), hlaid.diagnostics,
    hlaid.rootNames⟩

/-- A walk that succeeds meets each name below the directory once. -/
theorem meetsOnce (hd : d.IsProper) (h : ∃ entries, d.walk dir = .ok entries) : MeetsOnce d dir := by
  obtain ⟨l, top, hlocate, hmet⟩ := met_of_walk hd h
  have hlegal : ∀ e ∈ d.below l, ∀ s ∈ e.1, IsOrdinary s := fun e he s hs =>
    (hd.isFileName_of_below (hd.mem_below.mp he).2 s hs).toIsOrdinary
  have hnames : (metBelow d dir l top).map nameOf = "" :: (d.below l).map fun e => ofPieces e.1 := by
    have htop : nameOf (dir, WalkEntry.mk dir top) = "" := Staged.nameBelow_self dir
    have hrest : ∀ e ∈ d.below l, nameOf (dir, WalkEntry.mk (dir.below e.1) e.2) = ofPieces e.1 :=
      fun e he => nameOf_below hd hlocate he
    rw [metBelow, List.map_cons, List.map_map, htop, List.cons_inj_right, List.map_inj_left]
    intro e he
    rw [Function.comp_apply, hrest e he]
  refine ⟨?_, fun name x hname => ?_, fun e he hname => ?_⟩
  · rw [hmet, hnames, List.nodup_cons]
    constructor
    · intro hempty
      obtain ⟨e, he, hof⟩ := List.mem_map.mp hempty
      exact ((mem_below_pieces hd).mp ⟨e.1, hof, he⟩).1 rfl
    · have hsame : ((d.below l).map fun e => ofPieces e.1) = ((d.below l).map (·.1)).map ofPieces :=
        List.map_map.symm
      rw [hsame]
      refine (hd.nodup_below l).map_on fun ps hps qs hqs heq => ?_
      obtain ⟨e, he, rfl⟩ := List.mem_map.mp hps
      obtain ⟨f, hf, rfl⟩ := List.mem_map.mp hqs
      exact ofPieces_inj (hlegal e he) (hlegal f hf) heq
  · rw [hmet, mem_met hd hlocate hname, entryBelow?, hlocate]
  · rw [hmet] at he
    rcases List.mem_cons.mp he with rfl | hmem
    · exact absurd (Staged.nameBelow_self dir) hname
    · obtain ⟨e, hin, rfl⟩ := List.mem_map.mp hmem
      have hne : e.1 ≠ [] := (hd.mem_below.mp hin).1
      rw [nameOf_below hd hlocate hin, pieces_ofNames hne (hlegal e hin)]

/-- Two directories with different files of one name; the second one has a link, too. -/
def layeredDisk : Disk where
  entries := [(["a"], .directory 0o755), (["a", "x"], .file (.bytes [1]) 0o644),
    (["b"], .directory 0o755), (["b", "x"], .file (.bytes [2]) 0o600), (["b", "y"], .link "x")]
  workingDirectory := []

theorem layeredDisk_isProper : layeredDisk.IsProper :=
  Disk.isProper_of_entries (by decide) (by decide)

end ProtoForge.Staging
