import ProtoForge.Proofs.Files.Opening
import ProtoForge.Proofs.Output.Links

/-!
# Sites of new files

Targets that go on from a directory by names which it does not hold, none of
them at or below another. Whatever is put for one of them leaves the places of
the others free, and their scratch files go to the directory itself.
-/
namespace ProtoForge.Output

open Files

/-- A path to a directory, where that lies, and the targets below it. -/
structure Site where
  base : Path
  spot : Location
  targets : List Path

/-- Neither of two paths lies at the other or below it. -/
def Apart (p q : Path) : Prop := ¬ p.components <+: q.components ∧ ¬ q.components <+: p.components

instance : Std.Symm Apart := ⟨fun _ _ h => ⟨h.2, h.1⟩⟩

namespace Site

/-- A target goes on from the directory by some names, which entries but no scratch files can
have. -/
structure Aims (s : Site) (target : Path) (names : List String) : Prop where
  components : target.components = s.base.components ++ names.map .name
  ne_nil : names ≠ []
  legal : ∀ n ∈ names, Disk.IsFileName n
  plain : ∀ n ∈ names, ¬ IsScratchName scratchStem n
  last : (Path.pieces target.text).getLast? = names.getLast?
  text : Disk.checkText target.text = .ok ()

/-- The directory is there and holds nothing that the targets begin with, and no target is in the
way of another. -/
structure IsFree (s : Site) (d : Disk) : Prop where
  opens : d.Opens s.base s.spot
  aims : ∀ t ∈ s.targets, ∃ names, s.Aims t names ∧ ∀ n ∈ names.head?, d.get? (s.spot ++ [n]) = none
  apart : s.targets.Pairwise Apart

variable {s : Site} {d origin : Disk} {t u p q dir : Path} {names ns ms ps : List String} {n : String}
  {l : Location} {waiting : List Waiting}

namespace Aims

theorem prefix_of_components (h : s.Aims t ns) (h' : s.Aims u ms) (hnames : ns <+: ms) :
    t.components <+: u.components := by
  rw [h.components, h'.components, List.prefix_append_right_inj]
  exact hnames.map _

theorem not_isPrefix (h : s.Aims t ns) (h' : s.Aims u ms) (hapart : Apart t u) : ¬ ns <+: ms :=
  fun hnames => hapart.1 (h.prefix_of_components h' hnames)

theorem unique (h : s.Aims t ns) (h' : s.Aims t ms) : ns = ms := by
  have heq := List.append_cancel_left (h.components.symm.trans h'.components)
  exact List.map_injective_iff.mpr (fun _ _ => Component.name.inj) heq

/-- No scratch file lies at a place above a target or at its own. -/
theorem not_isScratchSpot (h : s.Aims t names) (hps : ps <+: names) (hne : ps ≠ []) :
    ¬ IsScratchSpot (s.spot ++ ps) := by
  rintro ⟨parent, n, hn, heq⟩
  obtain ⟨before, x, rfl⟩ := (List.eq_nil_or_concat' ps).resolve_left hne
  rw [← List.append_assoc] at heq
  obtain ⟨-, hx⟩ := List.append_inj' heq rfl
  obtain rfl : x = n := by simpa using hx
  exact h.plain x (hps.subset (by simp)) hn

end Aims

/-- Nothing lies at a target or on the way to it from the directory. -/
theorem IsFree.absent (hs : s.IsFree d) (hd : d.Rooted) (ht : t ∈ s.targets) (h : s.Aims t names)
    (hps : ps <+: names) (hne : ps ≠ []) : d.get? (s.spot ++ ps) = none := by
  obtain ⟨names', h', hhead⟩ := hs.aims t ht
  obtain rfl := h.unique h'
  obtain ⟨n, rest, rfl⟩ := List.exists_cons_of_ne_nil hne
  obtain ⟨more, rfl⟩ := hps
  exact hd.absent_of_prefix (hhead n (by simp)) ⟨rest, by simp⟩

/-! ### Where scratch files go -/

theorem isDirectory_eq_false (h : d.reaches p = false) : d.isDirectory p = false := by
  rw [Disk.reaches] at h
  rw [Disk.isDirectory]
  cases hstatus : d.status p with
  | error e => rfl
  | ok x => simp [hstatus, Except.toOption] at h

theorem reaches_empty (d : Disk) : d.reaches ⟨""⟩ = false := by
  rw [Disk.reaches, Disk.status]
  cases hlocate : d.locate ⟨""⟩ true with
  | error e => rfl
  | ok l => exact absurd rfl (Disk.text_ne_empty_of_locate hlocate)

/-- The empty path stands for the directory that one is in. -/
theorem opens_here (h : d.Opens ⟨""⟩ l) : d.Opens ⟨"."⟩ l := by
  refine ⟨?_, h.directory⟩
  have hfollows := h.follows
  rw [Disk.startOf_of_relative (Path.isAbsolute_eq_false (by decide))] at hfollows ⊢
  exact hfollows.of_moving h.directory (by simp [Path.pieces_eq_singleton, Path.moving, Path.isIdle])

/-- A text that can name a file if it is not empty. -/
def CanName (p : Path) : Prop := p.text ≠ "" → Disk.checkText p.text = .ok ()

theorem CanName.parent (h : CanName p) (hq : p.parent? = some q) : CanName q := by
  intro hne
  obtain ⟨rest, hrest⟩ := Path.text_parent hq
  have htext := h (by simp [hrest, hne])
  rw [hrest] at htext
  exact Disk.checkText_of_append htext hne

/-- Of a path that goes on from a directory by names which it does not hold, the closest parent
that exists is the directory, on all disks where that is so. -/
theorem exists_nearest (base : Path) (hp : p.components = base.components ++ ps.map .name)
    (hlegal : ∀ n ∈ ps, Path.IsOrdinary n) (htext : CanName p) :
    ∃ dir, dir.text ≠ "" ∧ Disk.checkText dir.text = .ok () ∧ ∀ (d : Disk) (l : Location),
      d.Opens base l → (∀ n ∈ ps.head?, d.get? (l ++ [n]) = none) →
        (p.ancestors.find? d.isDirectory).getD ⟨"."⟩ = dir ∧ d.Opens dir l := by
  induction ps using List.reverseRecOn generalizing p with
  | nil =>
    have hsame : p.components = base.components := by simpa using hp
    by_cases hempty : p.text = ""
    · refine ⟨⟨"."⟩, by decide, by cbv, fun d l hopens _ => ⟨?_, ?_⟩⟩
      · obtain ⟨text⟩ := p
        obtain rfl : text = "" := hempty
        have hnone : (Path.mk "").parent? = none :=
          Path.parent?_eq_none_iff.mpr (Or.inl (Path.components_eq_nil_iff.mpr rfl))
        rw [Path.ancestors_eq, hnone, List.find?_cons_of_neg
          (by simp [isDirectory_eq_false (reaches_empty d)])]
        rfl
      · refine opens_here (hopens.of_components ?_)
        rw [← hsame, Path.components_eq_nil_iff.mpr hempty, Path.components_eq_nil_iff.mpr rfl]
    · refine ⟨p, hempty, htext hempty, fun d l hopens _ => ?_⟩
      have hpopens := hopens.of_components hsame
      refine ⟨?_, hpopens⟩
      rw [Path.ancestors_eq, List.find?_cons_of_pos (hpopens.isDirectory (htext hempty))]
      rfl
  | append_singleton ps n ih =>
    obtain ⟨r, hr, hcomponents⟩ := Path.exists_parent hp
    obtain ⟨dir, hne, hdirtext, hdir⟩ :=
      ih hcomponents (fun m hm => hlegal m (List.mem_append_left _ hm)) (htext.parent hr)
    refine ⟨dir, hne, hdirtext, fun d l hopens hhead => ?_⟩
    have hnot : d.isDirectory p = false := by
      obtain ⟨m, rest, hsplit⟩ := List.exists_cons_of_ne_nil (List.concat_ne_nil n ps)
      rw [hsplit] at hp hhead hlegal
      rw [← Path.map_step_names hlegal] at hp
      exact isDirectory_eq_false
        (hopens.reaches_eq_false hp (hlegal m List.mem_cons_self) (hhead m rfl))
    rw [Path.ancestors_eq, hr, List.find?_cons_of_neg (by simp [hnot])]
    refine hdir d l hopens fun m hm => hhead m ?_
    rw [List.head?_append, Option.mem_def.mp hm]
    rfl

/-- The names that a scratch file for a target may need can be used in its directory. -/
def ScratchFits (d : Disk) (target : Path) (count : ℕ) : Prop :=
  ∀ n ≤ count, Bytes.textSize (scratchStem ++ Disk.sixDigits n) ≤ Disk.maxName ∧
    Disk.checkText ((d.absolutize (nearestDirectory d target)).join
      ⟨scratchStem ++ Disk.sixDigits n⟩).text = .ok ()

theorem isOrdinary_numbered (n : ℕ) : Path.IsOrdinary (scratchStem ++ Disk.sixDigits n) := by
  have hlong : 2 < (scratchStem ++ Disk.sixDigits n).toList.length := by
    have hstem : 2 < scratchStem.toList.length := by decide
    rw [String.toList_append, List.length_append]
    exact hstem.trans_le (Nat.le_add_right _ _)
  have hne : ∀ t : String, t.toList.length ≤ 2 → scratchStem ++ Disk.sixDigits n ≠ t := by
    rintro t ht rfl
    exact absurd hlong (Nat.not_lt.mpr ht)
  refine ⟨?_, hne ".." (by decide), ?_⟩
  · simp only [Path.isIdle, Bool.or_eq_false_iff, beq_eq_false_iff_ne]
    exact ⟨hne "" (by decide), hne "." (by decide)⟩
  · rw [String.toList_append, List.mem_append]
    exact fun hmem => hmem.elim (by decide) (Disk.not_mem_sixDigits n)

/-- While files are staged, nothing but scratch files comes to lie at the site. -/
theorem absent_of_staged (hs : s.IsFree origin) (h : Recoverable origin waiting [] [] d)
    (ht : t ∈ s.targets) (haims : s.Aims t names) (hps : ps <+: names) (hne : ps ≠ []) :
    d.get? (s.spot ++ ps) = none := by
  rw [← hs.absent h.old ht haims hps hne]
  refine h.undone _ (by simp) fun hmem => ?_
  obtain ⟨w, hw, hspot⟩ := List.mem_map.mp hmem
  exact haims.not_isScratchSpot hps hne (hspot ▸ (h.waits w hw).1.scratch)

/-- The scratch file for a target is made in the directory of the site. -/
theorem scratchFor_ok (ho : origin.IsProper) (hs : s.IsFree origin)
    (h : Recoverable origin waiting [] [] d) (ht : t ∈ s.targets) {count : ℕ}
    (hfits : ScratchFits origin t count) (hcount : d.entries.length ≤ count) (b : Bytes) :
    ∃ q l, outcome (scratchFor t b) d = (.ok q, d.put l (scratchEntry b)) ∧
      d.Names q l false ∧ d.get? l = none ∧ IsScratchSpot l := by
  obtain ⟨names, haims, hhead⟩ := hs.aims t ht
  obtain ⟨ps, n, rfl⟩ := (List.eq_nil_or_concat' names).resolve_left haims.ne_nil
  obtain ⟨r, hr, hcomponents⟩ := Path.exists_parent haims.components
  have htext : CanName t := fun _ => haims.text
  obtain ⟨dir, -, hdirtext, hdir⟩ := exists_nearest s.base hcomponents
    (fun m hm => (haims.legal m (List.mem_append_left _ hm)).toIsOrdinary) (htext.parent hr)
  have hnearest : ∀ e : Disk, nearestDirectory e t = (r.ancestors.find? e.isDirectory).getD ⟨"."⟩ := by
    intro e
    rw [nearestDirectory, Path.ancestors_eq, hr]
    rfl
  obtain ⟨horigin, hopens⟩ := hdir origin s.spot hs.opens fun m hm => hhead m (by
    rw [List.head?_append, Option.mem_def.mp hm]
    rfl)
  have hkeeps := h.keepsWays
  obtain ⟨hnow, hopens'⟩ := hdir d s.spot (hs.opens.keepsWays hkeeps) fun m hm => by
    obtain ⟨rest, rfl⟩ := List.head?_eq_some_iff.mp (Option.mem_def.mp hm)
    exact absent_of_staged hs h ht haims ⟨rest ++ [n], rfl⟩ (List.cons_ne_nil m [])
  obtain ⟨⟨i, hi, hfresh⟩, hnone⟩ := Disk.freshName_spec d s.spot scratchStem
  obtain ⟨hshort, hlong⟩ := hfits i (hi.trans hcount)
  have habsolute : d.absolutize dir = origin.absolutize dir := by
    rw [Disk.absolutize, Disk.absolutize, hkeeps.workingDirectory]
  have hnames : d.Names ((d.absolutize dir).join ⟨d.freshName s.spot scratchStem⟩)
      (s.spot ++ [d.freshName s.spot scratchStem]) false := by
    rw [habsolute]
    refine ((hopens.absolutize ho).keepsWays hkeeps).names_join
      (origin.absolutize_text_ne_empty dir) ?_ ?_
    · rw [hfresh]
      exact ⟨isOrdinary_numbered i, hshort⟩
    · rwa [hnearest, horigin, ← hfresh] at hlong
  refine ⟨_, _, ?_, hnames, hnone, s.spot, _, ⟨i, hfresh⟩, rfl⟩
  rw [scratchFor, outcome_bind, outcome_get]
  dsimp only
  rw [hnearest, hnow, outcome_makeScratch, hopens'.locate hdirtext]
  dsimp only
  rw [Disk.newEntry_eq_ok_iff.mpr ⟨⟨false, hnames⟩, hnone⟩]
  rfl

theorem length_entries_put_le (d : Disk) (l : Location) (x : Entry) :
    (d.put l x).entries.length ≤ d.entries.length + 1 := by
  rw [Disk.put, List.length_append, List.length_singleton]
  exact Nat.add_le_add_right (List.length_filter_le _ _) 1

/-- Staging files for targets of a free site succeeds. -/
theorem stageAll_ok (ho : origin.IsProper) (hs : s.IsFree origin)
    (h : Recoverable origin waiting [] [] d) {files : List (Path × Bytes)}
    (hfiles : ∀ f ∈ files, f.1 ∈ s.targets) {count : ℕ}
    (hfits : ∀ f ∈ files, ScratchFits origin f.1 count)
    (hcount : d.entries.length + files.length ≤ count) :
    ∃ t d', outcome (Transaction.stageAll ⟨waiting.map Waiting.pending⟩ files) d = (.ok t, d') := by
  induction files generalizing waiting d with
  | nil => exact ⟨_, d, rfl⟩
  | cons f files ih =>
    obtain ⟨target, b⟩ := f
    rw [List.length_cons] at hcount
    obtain ⟨q, l, hmade, hn, hl, hscratch⟩ := scratchFor_ok ho hs h (hfiles _ List.mem_cons_self)
      (hfits _ List.mem_cons_self) (by omega) b
    have hmore := length_entries_put_le d l (scratchEntry b)
    rw [Transaction.stageAll, outcome_bind, outcome_tryCatch, Transaction.stage, outcome_bind,
      outcome_orFail, hmade]
    have hrest := ih (h.stage hn hl hscratch target b)
      (fun f hf => hfiles f (List.mem_cons_of_mem _ hf))
      (fun f hf => hfits f (List.mem_cons_of_mem _ hf)) (by omega)
    rwa [List.map_append] at hrest

/-! ### Missing directories -/

/-- The missing directories of a path: none if it leads somewhere, and else those of its parent
and itself. -/
theorem missingDirectories_eq (d : Disk) (p : Path) :
    missingDirectories d p = if p.text = "" ∨ d.reaches p = true then [] else
      (match p.parent? with
        | some q => missingDirectories d q
        | none => []) ++ [p] := by
  rw [missingDirectories, Path.ancestors_eq]
  split_ifs with h
  · rw [List.takeWhile_cons_of_neg]
    · rfl
    · simpa [imp_iff_not_or] using h
  · rw [List.takeWhile_cons_of_pos, List.reverse_cons]
    · cases p.parent? <;> rfl
    · simpa using h

theorem missingDirectories_of_opens (hopens : d.Opens p l) (htext : CanName p) :
    missingDirectories d p = [] := by
  rw [missingDirectories_eq, if_pos]
  by_cases hempty : p.text = ""
  · exact Or.inl hempty
  · exact Or.inr (hopens.reaches (htext hempty))

theorem missingDirectories_of_missing (hq : p.parent? = some q) (hne : p.components ≠ [])
    (hreaches : d.reaches p = false) :
    missingDirectories d p = missingDirectories d q ++ [p] := by
  have hempty : p.text ≠ "" := fun h => hne (Path.components_eq_nil_iff.mpr h)
  rw [missingDirectories_eq, if_neg (by simp [hempty, hreaches]), hq]

end Site

end ProtoForge.Output
