import ProtoForge.Proofs.Files.Making

/-!
# Working inside a directory

A path opens a directory in which no links lie. What is made, written or given
permissions by paths that go on from it by names lies in the directory, whether
or not the action succeeds; so an action that consists of such steps changes
nothing outside, and removing the directory undoes it.
-/
namespace ProtoForge

namespace Path

variable {p q : Path}

/-- The components after the first ones are steps. -/
theorem exists_steps_of_isPrefix (h : p.components <+: q.components) (hne : p.text ≠ "") :
    ∃ steps : List String, q.components = p.components ++ steps.map step := by
  obtain ⟨more, hmore⟩ := h
  obtain ⟨c, cs, hp⟩ := List.exists_cons_of_ne_nil (mt components_eq_nil_iff.mp hne)
  rw [components_eq q] at hmore ⊢
  rw [← hmore]
  cases hstart : q.split.1 with
  | plain =>
    rw [hstart, PathStart.components, List.nil_append] at hmore
    obtain ⟨-, steps, -, -, rfl⟩ := List.map_eq_append_iff.mp hmore.symm
    exact ⟨steps, rfl⟩
  | root =>
    rw [hstart, hp, PathStart.components, List.singleton_append, List.cons_append] at hmore
    obtain ⟨-, steps, -, -, rfl⟩ := List.map_eq_append_iff.mp (List.cons_eq_cons.mp hmore).2.symm
    exact ⟨steps, rfl⟩
  | here =>
    rw [hstart, hp, PathStart.components, List.singleton_append, List.cons_append] at hmore
    obtain ⟨-, steps, -, -, rfl⟩ := List.map_eq_append_iff.mp (List.cons_eq_cons.mp hmore).2.symm
    exact ⟨steps, rfl⟩

end Path

namespace Files

namespace Disk

variable {d e f : Disk} {root p q : Path} {top l k : Location} {x : Entry} {names : List String}
  {slash : Bool} {c : Content} {m : ℕ}

/-- The way to a directory leads through directories. -/
theorem Opens.of_isPrefix (h : d.Opens q l) (hp : p.components <+: q.components) (hne : p.text ≠ "") :
    ∃ k, d.Opens p k := by
  obtain ⟨steps, hsteps⟩ := Path.exists_steps_of_isPrefix hp hne
  obtain ⟨k, xs, ys, hfirst, hxs, -, hrest⟩ := h.follows.split_of_append hsteps
  have hk : d.HasDirectory k := hrest.hasDirectory h.directory
  exact ⟨k, hfirst.of_moving hk hxs.symm, hk⟩

/-- A directory that a path opens, in which no links lie. -/
structure Enclosure (root : Path) (top : Location) (d : Disk) : Prop where
  proper : d.IsProper
  opens : d.Opens root top
  linkFree : d.LinkFreeBelow top

/-- What has changed lies at a location or below it. -/
structure ChangedBelow (top : Location) (d e : Disk) : Prop where
  grown : d.Grown e
  outside : ∀ k, ¬ top <+: k → e.get? k = d.get? k

/-- What starts in a directory stays in it. -/
def Stays (root : Path) (top : Location) (d e : Disk) : Prop :=
  Enclosure root top d → Enclosure root top e ∧ ChangedBelow top d e

theorem ChangedBelow.trans (h : ChangedBelow top d e) (g : ChangedBelow top e f) :
    ChangedBelow top d f :=
  ⟨h.grown.trans g.grown, fun k hk => (g.outside k hk).trans (h.outside k hk)⟩

theorem Stays.refl (root : Path) (top : Location) (d : Disk) : Stays root top d d :=
  fun h => ⟨h, .refl d, fun _ _ => rfl⟩

instance : IsPreorder Disk (Stays root top) where
  refl := .refl root top
  trans _ _ _ h g hd :=
    have ⟨he, hfirst⟩ := h hd
    have ⟨hf, hsecond⟩ := g he
    ⟨hf, hfirst.trans hsecond⟩

namespace Enclosure

/-- A path that goes on by names leads to what has these names below the directory. -/
theorem eq_of_leads (h : Enclosure root top d)
    (hq : q.components = root.components ++ names.map .name)
    (hnames : ∀ s ∈ names, IsFileName s) (hl : d.Leads q l) : l = top ++ names := by
  refine Leads.below ⟨_, h.opens.follows⟩ hl hq (fun s hs => (hnames s hs).toIsOrdinary)
    fun ps t hps ht => ?_
  by_cases hnil : ps = []
  · obtain ⟨m, hm⟩ := h.opens.directory
    rw [hnil, List.append_nil, hm] at ht
    cases ht
  · exact h.linkFree _ t (List.prefix_append top ps) (by simpa using hnil) ht

theorem put (h : Enclosure root top d) (hgrown : d.Grown (d.put l x)) (hne : l ≠ [])
    (hx : ∀ t, x ≠ .link t) : Enclosure root top (d.put l x) := by
  refine ⟨hgrown.proper h.proper, hgrown.opens h.opens, fun k t hk hkt ht => ?_⟩
  by_cases hkl : k = l
  · rw [hkl, get?_put d l x hne] at ht
    exact hx t (Option.some.inj ht)
  · rw [get?_put_eq hne, Function.update_of_ne hkl] at ht
    exact h.linkFree k t hk hkt ht

end Enclosure

/-- Something other than a link that is put into the directory. -/
theorem stays_put (hgrown : d.Grown (d.put l x)) (hne : l ≠ []) (hx : ∀ t, x ≠ .link t)
    (htop : Enclosure root top (d.put l x) → top <+: l) : Stays root top d (d.put l x) := by
  intro h
  have hput := h.put hgrown hne hx
  refine ⟨hput, hgrown, fun k hk => ?_⟩
  have hkl : k ≠ l := by
    rintro rfl
    exact hk (htop hput)
  rw [get?_put_eq hne, Function.update_of_ne hkl]

/-- Of a path that names a place, the place is where its names lead. -/
theorem Names.isPrefix (h : d.Names p l slash) (hgrown : d.Grown (d.put l x))
    (hp : p.components = root.components ++ names.map .name) (hnames : ∀ s ∈ names, IsFileName s)
    (hx : ∃ m, x = .directory m) (hput : Enclosure root top (d.put l x)) : top <+: l := by
  obtain ⟨m, rfl⟩ := hx
  have hopens := h.opens hgrown ⟨m, get?_put d l _ h.ne_nil⟩
  rw [hput.eq_of_leads hp hnames ⟨_, hopens.follows⟩]
  exact List.prefix_append top names

theorem lookup_filter_key {α β : Type} [BEq α] [LawfulBEq α] (keep : α → Bool)
    (entries : List (α × β)) (k : α) :
    (entries.filter fun e => keep e.1).lookup k = if keep k then entries.lookup k else none := by
  induction entries with
  | nil => simp
  | cons e rest ih =>
    obtain ⟨j, y⟩ := e
    by_cases hjk : k = j
    · subst hjk
      by_cases hkeep : keep k = true
      · simp [hkeep]
      · simp [hkeep, ih]
    · have hne : (k == j) = false := by simpa using hjk
      by_cases hkeep : keep j = true
      · simp [hkeep, List.lookup_cons, hne, ih]
      · simp [hkeep, List.lookup_cons, hne, ih]

theorem get?_eraseTree (hne : l ≠ []) (k : Location) :
    (d.eraseTree l).get? k = if l <+: k then none else d.get? k := by
  by_cases hk : k = []
  · have hnot : ¬ l <+: k := by
      rw [hk, List.prefix_nil]
      exact hne
    rw [if_neg hnot]
    simp [get?, hk]
  · rw [get?, if_neg hk, get?, if_neg hk, eraseTree]
    have hfilter := lookup_filter_key (fun j => !l.isPrefixOf j) d.entries k
    rw [hfilter]
    by_cases hlk : l <+: k
    · simp [hlk]
    · simp [hlk]

/-- Making a directory and working inside changes nothing outside. -/
theorem ChangedBelow.of_put (h : ChangedBelow top (d.put top x) e) (hne : top ≠ [])
    (hk : ¬ top <+: k) : e.get? k = d.get? k := by
  have hktop : k ≠ top := by
    rintro rfl
    exact hk List.prefix_rfl
  rw [h.outside k hk, get?_put_eq hne, Function.update_of_ne hktop]

/-- Removing a directory that was made where nothing was undoes what has changed in it. -/
theorem sameTree_eraseTree (hnone : ∀ k, top <+: k → d.get? k = none)
    (h : ChangedBelow top (d.put top x) e) : d.SameTree (e.eraseTree top) := by
  have hne : top ≠ [] := ne_nil_of_get?_eq_none (hnone top List.prefix_rfl)
  refine ⟨h.grown.workingDirectory, ?_⟩
  funext k
  rw [get?_eraseTree hne]
  split_ifs with hk
  · exact (hnone k hk).symm
  · exact h.of_put hne hk

/-- All that lies at a location and below it are directories with the usual permissions. -/
def BareBelow (d : Disk) (top : Location) : Prop :=
  ∀ k x, top <+: k → d.get? k = some x → x = .directory directoryMode

/-- A path that names something other than a link leads to it. -/
theorem Names.status (h : d.Names p l false) (hl : d.get? l = some x) (hx : ∀ t, x ≠ .link t) :
    d.status p = .ok (l, x) := by
  obtain ⟨htext, before, parent, s, ⟨n, hsteps, hn⟩, hname, hbefore, hdir, rfl⟩ := names_iff.mp h
  obtain rfl : n = 0 := by simpa using hn
  have hlocate : d.locate p true = .ok (parent ++ [s]) := by
    refine locate_iff.mpr ⟨htext, ?_⟩
    rw [hsteps]
    exact hbefore.append fun links => .entry hdir hname hl hx (.done links _)
  simp [Disk.status, hlocate, hl]

end Disk

open Disk

variable {d d' : Disk} {root p : Path} {top l : Location} {names : List String} {b : Bytes}
  {c : Content} {m n : ℕ}

theorem stays_makeDirectory (hp : p.components = root.components ++ names.map .name)
    (hnames : ∀ s ∈ names, IsFileName s) : Respects (Stays root top) (makeDirectory p) :=
  respects_makeDirectory fun _ _ _ hn _ hgrown =>
    stays_put hgrown hn.ne_nil (by simp) (hn.isPrefix hgrown hp hnames ⟨_, rfl⟩)

/-- Nothing is made by a path from which the path of the directory goes on. -/
theorem stays_makeDirectory_above (hp : p.components <+: root.components) (hne : p.text ≠ "") :
    Respects (Stays root top) (makeDirectory p) := by
  refine respects_makeDirectory fun d l slash hn hnone _ h => ?_
  obtain ⟨k, hk⟩ := h.opens.of_isPrefix hp hne
  have hnew := newEntry_eq_ok_iff.mpr ⟨⟨slash, hn⟩, hnone⟩
  exact absurd hnew (newEntry_ne_ok (hk.isDirectory (names_iff.mp hn).1))

theorem stays_makeDirectories (hp : p.components = root.components ++ names.map .name)
    (hnames : ∀ s ∈ names, IsFileName s) : Respects (Stays root top) (makeDirectories p) := by
  refine respects_makeDirectories fun q hq hne => ?_
  have habove := Path.isPrefix_of_mem_ancestors hq
  rw [hp] at habove
  rcases List.prefix_or_prefix_of_prefix habove (List.prefix_append _ _) with hroot | ⟨more, hmore⟩
  · exact stays_makeDirectory_above hroot hne
  · rw [← hmore, List.prefix_append_right_inj] at habove
    obtain ⟨rest, hrest⟩ := habove
    obtain ⟨ps, qs, rfl, rfl, -⟩ := List.map_eq_append_iff.mp hrest.symm
    exact stays_makeDirectory hmore.symm fun s hs => hnames s (List.mem_append_left qs hs)

theorem stays_writeFile (b : Bytes) (hp : p.components = root.components ++ names.map .name)
    (hnames : ∀ s ∈ names, IsFileName s) : Respects (Stays root top) (writeFile p b) := by
  refine respects_writeFile fun d l htarget hne hgrown => ?_
  refine stays_put hgrown hne (by simp) fun hput => ?_
  obtain ⟨n, hn⟩ := writeTarget_leads htarget hgrown ⟨_, _, get?_put d l _ hne⟩
  rw [← hgrown.workingDirectory] at hn
  rw [hput.eq_of_leads hp hnames ⟨n, hn⟩]
  exact List.prefix_append top names

namespace Disk.Enclosure

/-- A path that was written had nothing or a file where its names lead. -/
theorem of_writeFile {u : Unit} (h : Enclosure root top d)
    (hp : p.components = root.components ++ names.map .name) (hnames : ∀ s ∈ names, IsFileName s)
    (hout : outcome (writeFile p b) d = (.ok u, d')) :
    checkText p.text = .ok () ∧ ¬ d.HasDirectory (top ++ names) := by
  have hgrown := (grows_writeFile p b).of_outcome hout
  obtain ⟨he, -⟩ := (stays_writeFile b hp hnames).of_outcome hout h
  obtain ⟨l, hleads, hfile⟩ := writeFile_leads hout (.refl d')
  obtain rfl := he.eq_of_leads hp hnames hleads
  refine ⟨?_, fun hdir => not_hasDirectory_of_hasFile hfile (hgrown.directories _ hdir)⟩
  obtain ⟨l, htarget, -⟩ := writeFile_eq_ok hout
  obtain ⟨parent, s, hplace, -⟩ := writeTarget_cases htarget
  exact (placeFrom_eq_name.mp hplace).1

/-- A path that was made leads to a directory where its names lead. -/
theorem of_makeDirectories {u : Unit} (h : Enclosure root top d) (hne : p.text ≠ "")
    (hp : p.components = root.components ++ names.map .name) (hnames : ∀ s ∈ names, IsFileName s)
    (hout : outcome (makeDirectories p) d = (.ok u, d')) :
    checkText p.text = .ok () ∧ d'.HasDirectory (top ++ names) := by
  obtain ⟨he, -⟩ := (stays_makeDirectories hp hnames).of_outcome hout h
  obtain ⟨htext, l, hl⟩ := isDirectory_iff.mp ((isDirectory_of_makeDirectories hout).resolve_left hne)
  obtain rfl := he.eq_of_leads hp hnames ⟨_, hl.follows⟩
  exact ⟨htext, hl.directory⟩

end Disk.Enclosure

theorem outcome_setMode (p : Path) (mode : ℕ) (d : Disk) :
    outcome (setMode p mode) d =
      match d.status p with
      | .error e => (.error e, d)
      | .ok (l, .file c _) => (.ok (), d.put l (.file c mode))
      | .ok (l, .directory _) => (.ok (), d.put l (.directory mode))
      | .ok (_, .link _) => (.ok (), d) := by
  rw [setMode, outcome_inspect_bind]
  cases d.status p with
  | error e => rfl
  | ok r =>
    obtain ⟨l, x⟩ := r
    cases x <;> rfl

theorem stays_setMode (mode : ℕ) (hp : p.components = root.components ++ names.map .name)
    (hnames : ∀ s ∈ names, IsFileName s) (hne : names ≠ []) :
    Respects (Stays root top) (setMode p mode) := by
  intro d h
  rw [outcome_setMode]
  cases hstatus : d.status p with
  | error e => exact Stays.refl root top d h
  | ok r =>
    obtain ⟨l, x⟩ := r
    obtain ⟨k, hlocate, hx⟩ := bind_eq_ok.mp hstatus
    cases hk : d.get? k with
    | none => simp [hk] at hx
    | some y =>
      obtain ⟨rfl, rfl⟩ : k = l ∧ y = x := by simpa [hk] using hx
      obtain rfl := h.eq_of_leads hp hnames (.of_locate hlocate)
      have hspot : top ++ names ≠ [] := by simp [hne]
      have hinside : ∀ z, Enclosure root top (d.put (top ++ names) z) → top <+: top ++ names :=
        fun _ _ => List.prefix_append top names
      cases y with
      | link t => exact Stays.refl root top d h
      | directory m =>
        exact stays_put (grown_put_directory ⟨m, hk⟩ hspot mode) hspot (by simp) (hinside _) h
      | file c m =>
        obtain ⟨before, s, rfl⟩ := (List.eq_nil_or_concat' names).resolve_left hne
        rw [← List.append_assoc] at hk hspot hinside
        have hdir : d.HasDirectory (top ++ before) := h.proper.rooted _ s (by rw [hk]; simp)
        have hs : IsFileName s := hnames s (by simp)
        have hgrown := grown_put hdir hs (Or.inr ⟨⟨c, m, hk⟩, c, mode, rfl⟩)
        rw [← List.append_assoc]
        exact stays_put hgrown hspot (by simp) (hinside _) h

theorem setMode_directory (mode : ℕ) (h : d.Opens p l) (htext : checkText p.text = .ok ()) :
    outcome (setMode p mode) d = (.ok (), d.put l (.directory mode)) := by
  obtain ⟨m, hm⟩ := h.status htext
  rw [outcome_setMode, hm]

theorem setMode_file (mode : ℕ) (h : d.Names p l false) (hl : d.get? l = some (.file c m)) :
    outcome (setMode p mode) d = (.ok (), d.put l (.file c mode)) := by
  rw [outcome_setMode, h.status hl (by simp)]

/-- Directories that are made below bare ones are bare. -/
theorem bareBelow_makeDirectories (p : Path) (top : Location) :
    Respects (fun d e => d.BareBelow top ∧ d.HasDirectory top → e.BareBelow top ∧ e.HasDirectory top)
      (makeDirectories p) := by
  refine respects_makeDirectories fun q _ _ => respects_makeDirectory ?_
  rintro d l slash hn hnone hgrown ⟨hbare, htop⟩
  obtain ⟨parent, s, rfl, ⟨m, hm⟩, -⟩ := hn.spot
  refine ⟨fun k x hk hx => ?_, hgrown.directories top htop⟩
  by_cases hkl : k = parent ++ [s]
  · rw [hkl, get?_put d _ _ (by simp), List.dropLast_concat, Option.some.injEq] at hx
    -- the place was free, so it lies below the directory, and its parent does not lie above
    have hparent : top <+: parent := by
      rw [hkl] at hk
      refine (List.prefix_concat_iff.mp hk).resolve_left ?_
      rintro rfl
      obtain ⟨n, hn⟩ := htop
      simp [hnone] at hn
    obtain rfl : m = directoryMode := by simpa using hbare parent _ hparent hm
    rw [← hx, inheritedMode, hm]
    rfl
  · rw [get?_put_eq (by simp), Function.update_of_ne hkl] at hx
    exact hbare k x hk hx

/-- A loop each round of which puts something in a place of its own. A round may rely on its place
being as it was at the start. -/
theorem exists_forM_update {ε α : Type} {f : α → ExceptT ε (StateM Disk) PUnit} {I : Disk → Prop}
    {place : α → Location} {new : α → Option Entry} {xs : List α} (hplaces : (xs.map place).Nodup)
    (hround : ∀ x ∈ xs, ∀ d', I d' → d'.get? (place x) = d.get? (place x) →
      ∃ e, outcome (f x) d' = (.ok ⟨⟩, e) ∧ I e ∧ e.get? = Function.update d'.get? (place x) (new x))
    (hd : I d) :
    ∃ e, outcome (xs.forM f) d = (.ok ⟨⟩, e) ∧ I e ∧ (∀ x ∈ xs, e.get? (place x) = new x) ∧
      ∀ k, (∀ x ∈ xs, place x ≠ k) → e.get? k = d.get? k := by
  induction xs generalizing d with
  | nil => exact ⟨d, rfl, hd, by simp, fun _ _ => rfl⟩
  | cons x xs ih =>
    rw [List.map_cons, List.nodup_cons] at hplaces
    obtain ⟨hfresh, hplaces⟩ := hplaces
    have hother : ∀ y ∈ xs, place y ≠ place x := by
      intro y hy heq
      exact hfresh (heq ▸ List.mem_map_of_mem hy)
    obtain ⟨d₁, hfirst, hd₁, hget⟩ := hround x List.mem_cons_self d hd rfl
    have hsame : ∀ y ∈ xs, d₁.get? (place y) = d.get? (place y) := by
      intro y hy
      rw [hget, Function.update_of_ne (hother y hy)]
    obtain ⟨e, hrest, he, hnew, houtside⟩ := ih hplaces (fun y hy d' hd' hold =>
      hround y (List.mem_cons_of_mem x hy) d' hd' (hold.trans (hsame y hy))) hd₁
    refine ⟨e, ?_, he, List.forall_mem_cons.mpr ⟨?_, hnew⟩, fun k hk => ?_⟩
    · rw [outcome_forM_cons]
      exact outcome_bind_eq_ok.mpr ⟨_, d₁, hfirst, hrest⟩
    · rw [houtside _ hother, hget, Function.update_self]
    · rw [List.forall_mem_cons] at hk
      rw [houtside k hk.2, hget, Function.update_of_ne hk.1.symm]

theorem outcome_makeScratchDirectory (dir : Path) (stem : String) (d : Disk) :
    outcome (makeScratchDirectory dir stem) d =
      match d.locate dir true with
      | .error e => (.error e, d)
      | .ok l => (.ok (dir.join ⟨d.freshName l stem⟩),
          d.put (l ++ [d.freshName l stem]) (.directory directoryMode)) := by
  rw [makeScratchDirectory, outcome_inspect_bind]
  cases d.locate dir true <;> rfl

theorem removeTree_after (h : d.locate p true = .ok l) : (removeTree p).after d = d.eraseTree l := by
  rw [after_eq, removeTree, outcome_inspect_bind, h]
  rfl

end Files

end ProtoForge
