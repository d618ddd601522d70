import ProtoForge.Proofs.Resolution.Closed
import ProtoForge.Proofs.Resolution.Table

/-!
# Building requests from tables

With a table as compiler, what is being expanded is always the path from a
root to the file at hand. So an import that is met while it is open lies on a
cycle, the path has no more names than the table, and each name is expanded
once and compiled alone at most once.
-/
namespace ProtoForge.Resolution

variable {t : List FileDescriptor} {missing : List String → Failure}
  {roots ns ms singles more : List String} {c c' c₁ : Closure} {log log' : List (List String)}
  {f : FileDescriptor} {n d a : String} {e : Failure} {depth m : ℕ}

/-- Single names that were compiled: each once, and each a file of the table that a file in reach
imports. -/
structure Logged (t : List FileDescriptor) (roots singles : List String) : Prop where
  once : singles.Nodup
  imported : ∀ n ∈ singles, (filed t n).isSome ∧ ∃ r, Reachable t roots r ∧ Imports t r n

/-- The calls of a compiler that compiled the roots together and then single names. -/
def logOf (roots singles : List String) : List (List String) := roots :: singles.map fun n => [n]

/-- A closure in the middle of a walk over a table: what is done was emitted, what is open is a
path of files of the table, and both were compiled, alone or as a root. -/
structure Tidy (t : List FileDescriptor) (roots : List String) (c : Closure)
    (singles : List String) : Prop where
  done : ∀ n, c.contains n = true ↔ n ∈ c.names
  path : c.inProgress.Nodup
  known : ∀ p ∈ c.inProgress, (filed t p).isSome
  logged : Logged t roots singles
  compiled : ∀ n ∈ singles, n ∈ c.names ∨ n ∈ c.inProgress
  asked : ∀ n, n ∈ c.names ∨ n ∈ c.inProgress → n ∈ roots ∨ n ∈ singles

/-- Why a walk over a table ends: an import in reach is not in the table or on a cycle. -/
def Refused (t : List FileDescriptor) (roots : List String) (e : Failure) : Prop :=
  (∃ n r, e = .unresolvedDependency n r ∧ Reachable t roots r ∧ Imports t r n ∧
      filed t n = none) ∨
    ∃ n, e = .dependencyCycle n ∧ Reachable t roots n ∧ OnCycle t n

/-- Compilations would nest deeper than allowed; it takes a table of more files than that. -/
def TooDeep (t : List FileDescriptor) (depth : ℕ) (e : Failure) : Prop :=
  e = .invalidRequest .tooDeep ∧ depth < t.length

/-- All that some roots reach is in the table, and nothing of it imports itself. -/
def Complete (t : List FileDescriptor) (roots : List String) : Prop :=
  ∀ n, Reachable t roots n → (filed t n).isSome ∧ ¬ OnCycle t n

/-- A walk went over some names and came back to the same path. -/
structure Walked (t : List FileDescriptor) (roots : List String) (c : Closure) (ns : List String)
    (c' : Closure) (log : List (List String)) : Prop where
  emitted : ∃ fs, c'.files = c.files ++ fs ∧ PostOrder t c.names ns fs ∧
    ∀ f ∈ fs, f.name ∉ c.inProgress
  path : c'.inProgress = c.inProgress
  tidy : ∃ singles, log = logOf roots singles ∧ Tidy t roots c' singles

/-- What may come of a walk over some names. -/
def Expanded (t : List FileDescriptor) (depth : ℕ) (roots : List String) (c : Closure)
    (ns : List String) : Except Failure Closure × List (List String) → Prop
  | (.ok c', log) => Walked t roots c ns c' log
  | (.error e, log) =>
      (Refused t roots e ∨ TooDeep t depth e) ∧
        ∃ singles, log = logOf roots singles ∧ Logged t roots singles

theorem run_locate (log : List (List String)) :
    ((tableSource t missing).locate n).run log = ((filed t n).isSome, log) := rfl

theorem outcome_compile (names : List String) (log : List (List String)) :
    outcome ((tableSource t missing).compile names) log =
      match names.mapM (filed t) with
      | some set => (.ok set, log ++ [names])
      | none => (.error (missing names), log ++ [names]) := by
  rw [tableSource, outcome_bind, outcome_modify]
  dsimp only
  cases names.mapM (filed t) <;> rfl

theorem outcome_compile_one (h : filed t n = some f) :
    outcome ((tableSource t missing).compile [n]) (logOf roots singles) =
      (.ok [f], logOf roots (singles ++ [n])) := by
  have hset : [n].mapM (filed t) = some [f] := by simp [h]
  rw [outcome_compile, hset]
  simp [logOf]

theorem Closure.inProgress_start (h : n ∉ c.inProgress) :
    (c.start n).inProgress = n :: c.inProgress := by
  rw [start, if_neg (by simpa using h)]

theorem Closure.markVisited_of_contains (h : c.contains n = true) : c.markVisited n = c := by
  rw [markVisited, if_pos h]

namespace Tidy

theorem not_contains (h : Tidy t roots c singles) (hn : n ∉ c.names) : c.contains n = false := by
  simpa using mt (h.done n).mp hn

/-- Opening a file of the table that is not open and was compiled, perhaps just now. -/
theorem start (h : Tidy t roots c singles) (hn : n ∉ c.inProgress) (hf : (filed t n).isSome)
    (hlogged : Logged t roots more) (hsub : singles ⊆ more)
    (hmore : ∀ m ∈ more, m = n ∨ m ∈ singles) (hasked : n ∈ roots ∨ n ∈ more) :
    Tidy t roots (c.start n) more := by
  have hpath := Closure.inProgress_start hn
  have hnames : (c.start n).names = c.names := Closure.names_start
  refine ⟨?_, ?_, ?_, hlogged, fun m hm => ?_, fun m hm => ?_⟩
  · simpa [hnames] using h.done
  · rw [hpath]
    exact List.nodup_cons.mpr ⟨hn, h.path⟩
  · rw [hpath]
    exact List.forall_mem_cons.mpr ⟨hf, h.known⟩
  · rw [hpath, hnames]
    rcases hmore m hm with rfl | hm
    · exact Or.inr List.mem_cons_self
    · exact (h.compiled m hm).imp_right (List.mem_cons_of_mem n)
  · rw [hpath, hnames, List.mem_cons, or_left_comm] at hm
    rcases hm with rfl | hm
    · exact hasked
    · exact (h.asked m hm).imp_right fun hmem => hsub hmem

/-- Compiling an import alone that is then opened. -/
theorem compile (h : Tidy t roots c singles) (hnames : n ∉ c.names) (hn : n ∉ c.inProgress)
    (hf : (filed t n).isSome) (ha : Reachable t roots a) (han : Imports t a n) :
    Tidy t roots (c.start n) (singles ++ [n]) := by
  have hnew : n ∉ singles := fun hmem => (h.compiled n hmem).elim hnames hn
  have hsplit : ∀ m ∈ singles ++ [n], m = n ∨ m ∈ singles := by
    intro m hm
    rcases List.mem_append.mp hm with hm | hm
    · exact Or.inr hm
    · exact Or.inl (List.mem_singleton.mp hm)
  refine h.start hn hf ⟨?_, fun m hm => ?_⟩ (List.subset_append_left _ _) hsplit (by simp)
  · refine List.nodup_append.mpr ⟨h.logged.once, by simp, fun m hm b hb heq => hnew ?_⟩
    rw [← List.mem_singleton.mp hb, ← heq]
    exact hm
  · rcases hsplit m hm with rfl | hm
    · exact ⟨hf, a, ha, han⟩
    · exact h.logged.imported m hm

/-- Emitting the file that was opened last. -/
theorem finish (h : Tidy t roots c singles) {path : List String}
    (hpath : c.inProgress = f.name :: path) (hnames : f.name ∉ c.names) :
    Tidy t roots (c.finish f) singles ∧ (c.finish f).inProgress = path ∧
      (c.finish f).files = c.files ++ [f] := by
  have hnodup := h.path
  rw [hpath, List.nodup_cons] at hnodup
  have hfiles : (c.finish f).files = c.files ++ [f] := by
    rw [Closure.files_finish, if_neg (by simp [h.not_contains hnames])]
  have hrest : (c.finish f).inProgress = path := by
    have hfilter : c.inProgress.filter (· ≠ f.name) = path := by
      rw [hpath, List.filter_cons_of_neg (by simp), List.filter_eq_self]
      intro p hp
      have hne : p ≠ f.name := fun heq => hnodup.1 (heq ▸ hp)
      simpa using hne
    rw [← hfilter, Closure.finish]
    dsimp only
    split_ifs <;> rfl
  -- Emitting moves the name from the path to the names.
  have hmoved : ∀ m, m ∈ (c.finish f).names ∨ m ∈ (c.finish f).inProgress ↔
      m ∈ c.names ∨ m ∈ c.inProgress := by
    intro m
    rw [hrest, hpath, Closure.names, Closure.names, hfiles]
    simp [or_assoc]
  refine ⟨⟨fun m => ?_, ?_, ?_, h.logged, fun m hm => ?_, fun m hm => ?_⟩, hrest, hfiles⟩
  · rw [Closure.contains_finish, h.done, Closure.names, Closure.names, hfiles, List.map_append,
      List.mem_append, or_comm]
    simp
  · rw [hrest]
    exact hnodup.2
  · rw [hrest]
    exact fun p hp => h.known p (hpath ▸ List.mem_cons_of_mem _ hp)
  · exact (hmoved m).mpr (h.compiled m hm)
  · exact h.asked m ((hmoved m).mp hm)

/-- A path is no longer than its table. -/
theorem length_le (h : Tidy t roots c singles) : c.inProgress.length ≤ t.length := by
  have hsub : c.inProgress ⊆ t.map (·.name) := by
    intro p hp
    obtain ⟨f, hf⟩ := Option.isSome_iff_exists.mp (h.known p hp)
    exact List.mem_map.mpr ⟨f, mem_of_filed hf, name_of_filed hf⟩
  simpa using (h.path.subperm hsub).length_le

end Tidy

namespace Walked

theorem seen (h : Tidy t roots c singles) (hn : n ∈ c.names) :
    Walked t roots c [n] c (logOf roots singles) :=
  ⟨⟨[], by simp, .seen hn (.nil _), by simp⟩, rfl, singles, rfl, h⟩

theorem names_eq (h : Walked t roots c ns c' log) :
    ∃ fs, c'.names = c.names ++ fs.map (·.name) ∧ PostOrder t c.names ns fs ∧
      ∀ f ∈ fs, f.name ∉ c.inProgress := by
  obtain ⟨fs, hfiles, horder, hopen⟩ := h.emitted
  exact ⟨fs, by rw [Closure.names, hfiles, List.map_append, Closure.names], horder, hopen⟩

/-- What was walked over is emitted. -/
theorem mem_names (h : Walked t roots c ns c' log) (hn : n ∈ ns) : n ∈ c'.names := by
  obtain ⟨fs, hnames, horder, -⟩ := h.names_eq
  rw [hnames]
  exact horder.covers hn

/-- A name on the path is not emitted by what is walked meanwhile. -/
theorem not_mem_names (h : Walked t roots c ns c' log) (hn : n ∉ c.names)
    (hopen : n ∈ c.inProgress) : n ∉ c'.names := by
  obtain ⟨fs, hnames, -, hfresh⟩ := h.names_eq
  rw [hnames, List.mem_append, not_or]
  refine ⟨hn, fun hmem => ?_⟩
  obtain ⟨g, hg, rfl⟩ := List.mem_map.mp hmem
  exact hfresh g hg hopen

theorem trans {ms : List String} (h : Walked t roots c ns c₁ log)
    (h' : Walked t roots c₁ ms c' log') : Walked t roots c (ns ++ ms) c' log' := by
  obtain ⟨fs, hfiles, horder, hopen⟩ := h.emitted
  obtain ⟨gs, hfiles', horder', hopen'⟩ := h'.emitted
  have hnames : c₁.names = c.names ++ fs.map (·.name) := by
    rw [Closure.names, hfiles, List.map_append, Closure.names]
  rw [hnames] at horder'
  rw [h.path] at hopen'
  refine ⟨⟨fs ++ gs, ?_, horder.append horder', ?_⟩, h'.path.trans h.path, h'.tidy⟩
  · rw [hfiles', hfiles, List.append_assoc]
  · exact List.forall_mem_append.mpr ⟨hopen, hopen'⟩

end Walked

theorem Expanded.cons {r : Except Failure Closure × List (List String)}
    (h : Walked t roots c [n] c₁ log) (h' : Expanded t depth roots c₁ ns r) :
    Expanded t depth roots c (n :: ns) r := by
  obtain ⟨e | c', log'⟩ := r
  · exact h'
  · exact h.trans h'

/-- Expanding one file of the table at some remaining depth, from a path of files that reach it. -/
def Visits (t : List FileDescriptor) (missing : List String → Failure) (depth : ℕ)
    (roots : List String) (m : ℕ) : Prop :=
  ∀ {c : Closure} {f : FileDescriptor} {singles : List String}, filed t f.name = some f →
    f.name ∉ c.names → f.name ∉ c.inProgress → Tidy t roots (c.start f.name) singles →
    Reachable t roots f.name →
    (∀ p ∈ c.inProgress, Relation.TransGen (Imports t) p f.name) →
    m + c.inProgress.length = depth →
    Expanded t depth roots c [f.name]
      (outcome (resolve (tableSource t missing) m [f] c) (logOf roots singles))

/-- Walking over imports of the file that was opened last. -/
theorem expanded_imports (hvisits : Visits t missing depth roots m) (ds : List String)
    (hds : ∀ d ∈ ds, Imports t a d) (ha : Reachable t roots a)
    (hpath : ∀ p ∈ c.inProgress, Relation.ReflTransGen (Imports t) p a)
    (h : Tidy t roots c singles) (hm : m + c.inProgress.length = depth) :
    Expanded t depth roots c ds
      (outcome (ds.foldlM (resolveImport (tableSource t missing)
        (resolve (tableSource t missing) m) a) c) (logOf roots singles)) := by
  induction ds generalizing c singles with
  | nil => exact ⟨⟨[], by simp, .nil _, by simp⟩, rfl, singles, rfl, h⟩
  | cons d ds ih =>
    obtain ⟨had, hrest⟩ := List.forall_mem_cons.mp hds
    rw [outcome_foldlM_cons, outcome_resolveImport]
    by_cases hdone : c.contains d = true
    · rw [if_pos hdone]
      exact .cons (.seen h ((h.done d).mp hdone)) (ih hrest hpath h hm)
    rw [if_neg hdone]
    have hnames : d ∉ c.names := fun hmem => hdone ((h.done d).mpr hmem)
    by_cases hopen : c.inProgress.contains d = true
    · -- The path leads from the import to the file that has it.
      rw [if_pos hopen]
      have hcycle : OnCycle t d := Relation.TransGen.tail' (hpath d (by simpa using hopen)) had
      exact ⟨Or.inl (Or.inr ⟨d, rfl, ha.imports had, hcycle⟩), singles, rfl, h.logged⟩
    rw [if_neg hopen]
    have hfree : d ∉ c.inProgress := by simpa using hopen
    rw [run_locate]
    cases hfiled : filed t d with
    | none =>
      exact ⟨Or.inl (Or.inl ⟨d, a, rfl, ha, had, hfiled⟩), singles, rfl, h.logged⟩
    | some g =>
      rw [Option.isSome_some]
      dsimp only
      rw [outcome_compile_one hfiled]
      dsimp only
      obtain rfl := name_of_filed hfiled
      have hopened := h.compile hnames hfree (by simp [hfiled]) ha had
      have hvisit := hvisits hfiled hnames hfree hopened (ha.imports had)
        (fun p hp => Relation.TransGen.tail' (hpath p hp) had) hm
      generalize outcome (resolve (tableSource t missing) m [g] c)
        (logOf roots (singles ++ [g.name])) = result at hvisit ⊢
      obtain ⟨e | c₁, log₁⟩ := result
      · exact hvisit
      · obtain ⟨singles₁, rfl, h₁⟩ := hvisit.tidy
        have hcontains : c₁.contains g.name = true :=
          (h₁.done _).mpr (hvisit.mem_names List.mem_cons_self)
        dsimp only
        rw [Closure.markVisited_of_contains hcontains]
        have hpath₁ := hvisit.path
        exact .cons hvisit (ih hrest (by rwa [hpath₁]) h₁ (by rwa [hpath₁]))

/-- Expanding one file, when the files that it imports are expanded one level deeper. -/
theorem expanded_file (hvisits : Visits t missing depth roots m) (hf : filed t f.name = some f)
    (hnames : f.name ∉ c.names) (hfree : f.name ∉ c.inProgress)
    (h : Tidy t roots (c.start f.name) singles) (hreach : Reachable t roots f.name)
    (hpath : ∀ p ∈ c.inProgress, Relation.TransGen (Imports t) p f.name)
    (hm : m + 1 + c.inProgress.length = depth) :
    Expanded t depth roots c [f.name]
      (outcome (resolveFile (tableSource t missing) (resolve (tableSource t missing) m) c f)
        (logOf roots singles)) := by
  have hstart := Closure.inProgress_start hfree
  have hsame : (c.start f.name).names = c.names := Closure.names_start
  have hunknown : c.contains f.name = false := by
    simpa using h.not_contains (n := f.name) (by rwa [hsame])
  have himports := expanded_imports hvisits f.dependencies (fun d hd => ⟨f, hf, hd⟩) hreach
    (by
      rw [hstart]
      exact List.forall_mem_cons.mpr ⟨.refl, fun p hp => (hpath p hp).to_reflTransGen⟩)
    h (by rw [hstart, List.length_cons]; omega)
  rw [outcome_resolveFile, if_neg (by simp [hunknown])]
  generalize outcome (f.dependencies.foldlM (resolveImport (tableSource t missing)
    (resolve (tableSource t missing) m) f.name) (c.start f.name)) (logOf roots singles) = result
    at himports ⊢
  obtain ⟨e | c₁, log₁⟩ := result
  · exact himports
  · obtain ⟨fs, hfiles, horder, hopen⟩ := himports.emitted
    obtain ⟨singles₁, rfl, h₁⟩ := himports.tidy
    have hself : f.name ∉ c₁.names :=
      himports.not_mem_names (by rwa [hsame]) (by rw [hstart]; exact List.mem_cons_self)
    obtain ⟨htidy, hback, hemitted⟩ := h₁.finish (himports.path.trans hstart) hself
    rw [hsame] at horder
    rw [hstart] at hopen
    refine ⟨⟨fs ++ [f], ?_, .visit hnames hf horder (.nil _), ?_⟩, hback, singles₁, rfl, htidy⟩
    · rw [hemitted, hfiles, Closure.files_start, List.append_assoc]
    · refine List.forall_mem_append.mpr ⟨fun g hg hmem => ?_, by simpa using hfree⟩
      exact hopen g hg (List.mem_cons_of_mem _ hmem)

/-- Files are expanded at any remaining depth; at none, the path is as long as allowed and the file
is one more of the table. -/
theorem visits (t : List FileDescriptor) (missing : List String → Failure) (depth : ℕ)
    (roots : List String) (m : ℕ) : Visits t missing depth roots m := by
  induction m with
  | zero =>
    intro c f singles hf hnames hfree h hreach hpath hm
    have hlength := h.length_le
    rw [Closure.inProgress_start hfree, List.length_cons] at hlength
    exact ⟨Or.inr ⟨rfl, by omega⟩, singles, rfl, h.logged⟩
  | succ m ih =>
    intro c f singles hf hnames hfree h hreach hpath hm
    have hfile := expanded_file ih hf hnames hfree h hreach hpath hm
    rw [resolve, outcome_foldlM_cons]
    generalize outcome (resolveFile (tableSource t missing) (resolve (tableSource t missing) m) c f)
      (logOf roots singles) = result at hfile ⊢
    obtain ⟨e | c₁, log₁⟩ := result
    · exact hfile
    · exact hfile

/-- Expanding the files of roots one after the other, each from an empty path. -/
theorem expanded_roots {rs : List String} {set : List FileDescriptor}
    (hset : rs.mapM (filed t) = some set) (hrs : ∀ r ∈ rs, r ∈ roots)
    (h : Tidy t roots c singles) (hclear : c.inProgress = []) :
    Expanded t (m + 1) roots c rs
      (outcome (resolve (tableSource t missing) (m + 1) set c) (logOf roots singles)) := by
  rw [resolve]
  induction rs generalizing set c singles with
  | nil =>
    obtain rfl : [] = set := by simpa using hset
    exact ⟨⟨[], by simp, .nil _, by simp⟩, rfl, singles, rfl, h⟩
  | cons r rs ih =>
    obtain ⟨hr, hrest⟩ := List.forall_mem_cons.mp hrs
    obtain ⟨g, hg, gs, hgs, rfl⟩ : ∃ g, filed t r = some g ∧ ∃ gs, rs.mapM (filed t) = some gs ∧
        g :: gs = set := by
      simpa [Option.bind_eq_some_iff] using hset
    obtain rfl := name_of_filed hg
    rw [outcome_foldlM_cons]
    by_cases hdone : c.contains g.name = true
    · rw [outcome_resolveFile, if_pos hdone]
      exact .cons (.seen h ((h.done _).mp hdone)) (ih hgs hrest h hclear)
    have hnames : g.name ∉ c.names := fun hmem => hdone ((h.done _).mpr hmem)
    have hfree : g.name ∉ c.inProgress := by simp [hclear]
    have hopened : Tidy t roots (c.start g.name) singles :=
      h.start hfree (by simp [hg]) h.logged (List.Subset.refl _) (fun _ => Or.inr) (Or.inl hr)
    have hfile := expanded_file (visits t missing (m + 1) roots m) hg hnames hfree hopened
      ⟨g.name, hr, .refl⟩ (by simp [hclear]) (by simp [hclear])
    generalize outcome (resolveFile (tableSource t missing) (resolve (tableSource t missing) m) c g)
      (logOf roots singles) = result at hfile ⊢
    obtain ⟨e | c₁, log₁⟩ := result
    · exact hfile
    · obtain ⟨singles₁, rfl, h₁⟩ := hfile.tidy
      exact .cons hfile (ih hgs hrest h₁ (hfile.path.trans hclear))

theorem tidy_empty : Tidy t roots .empty [] where
  done := by simp [Closure.contains, Closure.names, Closure.empty]
  path := .nil
  known := by simp [Closure.empty]
  logged := ⟨.nil, by simp⟩
  compiled := by simp
  asked := by simp [Closure.names, Closure.empty]

/-- Resolving the roots themselves, at any depth. -/
theorem expanded_set {set : List FileDescriptor} (hset : roots.mapM (filed t) = some set)
    (hroots : roots ≠ []) :
    Expanded t depth roots .empty roots
      (outcome (resolve (tableSource t missing) depth set .empty) [roots]) := by
  cases depth with
  | zero =>
    obtain ⟨r, rs, rfl⟩ := List.exists_cons_of_ne_nil hroots
    obtain ⟨g, hg, -⟩ : ∃ g, filed t r = some g ∧ ∃ gs, rs.mapM (filed t) = some gs ∧
        g :: gs = set := by
      simpa [Option.bind_eq_some_iff] using hset
    exact ⟨Or.inr ⟨rfl, List.length_pos_of_mem (mem_of_filed hg)⟩, [], rfl, .nil, by simp⟩
  | succ m => exact expanded_roots hset (fun _ h => h) tidy_empty rfl

theorem PostOrder.complete {fs : List FileDescriptor} (h : PostOrder t [] roots fs)
    (hd : (fs.map (·.name)).Nodup) : Complete t roots := by
  intro n hn
  have hmem := h.mem_names_iff.mpr hn
  refine ⟨?_, h.not_onCycle hd hmem⟩
  obtain ⟨f, hf, rfl⟩ := List.mem_map.mp hmem
  simp [h.filed_of_mem hf]

theorem Refused.not_complete (h : Refused t roots e) : ¬ Complete t roots := by
  intro hcomplete
  rcases h with ⟨n, r, -, hr, hrn, hnone⟩ | ⟨n, -, hn, hcycle⟩
  · have hsome := (hcomplete n (hr.imports hrn)).1
    simp [hnone] at hsome
  · exact (hcomplete n hn).2 hcycle

theorem exists_set (h : ∀ r ∈ roots, (filed t r).isSome) :
    ∃ set, roots.mapM (filed t) = some set := by
  induction roots with
  | nil => exact ⟨[], rfl⟩
  | cons r rs ih =>
    obtain ⟨hr, hrs⟩ := List.forall_mem_cons.mp h
    obtain ⟨g, hg⟩ := Option.isSome_iff_exists.mp hr
    obtain ⟨gs, hgs⟩ := ih hrs
    exact ⟨g :: gs, by simp [hg, hgs]⟩

namespace CompilationRequest

/-- A closure that was walked from the roots is a request. -/
theorem outcome_build_of_walked {set : List FileDescriptor} (hset : roots.mapM (filed t) = some set)
    (hroots : roots ≠ []) (hd : c.names.Nodup)
    (hresolve : outcome (resolve (tableSource t missing) depth set .empty) [roots] = (.ok c, log))
    (h : Walked t roots .empty roots c log) :
    outcome (build (tableSource t missing) depth roots) [] = (.ok ⟨c.files, roots⟩, log) ∧
      PostOrder t [] roots c.files := by
  obtain ⟨fs, hfiles, horder, -⟩ := h.emitted
  obtain ⟨singles, -, htidy⟩ := h.tidy
  obtain rfl : c.files = fs := hfiles
  have hmissing : missingRoot? c roots = none := by
    refine List.find?_eq_none.mpr fun r hr => ?_
    simpa using (htidy.done r).mpr (h.mem_names hr)
  have hverify : verifyOrder ⟨c.files, roots⟩ = .ok () := verifyOrder_eq_ok horder.importsFirst hd
  refine ⟨?_, horder⟩
  rw [outcome_build, if_neg (by simpa using hroots), outcome_compile, hset]
  dsimp only
  rw [List.nil_append, hresolve]
  dsimp only
  rw [hmissing]
  dsimp only
  rw [hverify]

/-- What is built from a table for roots that it has: if nothing in reach of them is missing or
imports itself, the files in reach, each once and in the order of a depth-first walk; else the
reason why there is no such order. The roots are compiled together, and what else is in reach is
compiled alone, at most once. -/
theorem build_of_table (t : List FileDescriptor) (missing : List String → Failure) (depth : ℕ)
    (hroots : roots ≠ []) (hfiled : ∀ r ∈ roots, (filed t r).isSome) :
    ∃ result singles,
      outcome (build (tableSource t missing) depth roots) [] = (result, logOf roots singles) ∧
      Logged t roots singles ∧
      (t.length ≤ depth → ((∃ req, result = .ok req) ↔ Complete t roots)) ∧
      (∀ req, result = .ok req →
        req.roots = roots ∧ req.names.Nodup ∧ (∀ n, n ∈ req.names ↔ Reachable t roots n) ∧
          PostOrder t [] roots req.files ∧ ∀ n ∈ req.names, n ∈ roots ∨ n ∈ singles) ∧
      ∀ e, result = .error e → Refused t roots e ∨ TooDeep t depth e := by
  obtain ⟨set, hset⟩ := exists_set hfiled
  have hexpanded : Expanded t depth roots .empty roots
      (outcome (resolve (tableSource t missing) depth set .empty) [roots]) :=
    expanded_set hset hroots
  rcases hresolve : outcome (resolve (tableSource t missing) depth set .empty) [roots]
    with ⟨e | c, log⟩
  · rw [hresolve] at hexpanded
    obtain ⟨hwhy, singles, rfl, hlogged⟩ := hexpanded
    refine ⟨.error e, singles, ?_, hlogged, fun hdepth => ?_, by simp, ?_⟩
    · rw [outcome_build, if_neg (by simpa using hroots), outcome_compile, hset]
      dsimp only
      rw [List.nil_append, hresolve]
    · have hrefused : Refused t roots e := hwhy.resolve_right fun h => absurd h.2 (by omega)
      simpa using hrefused.not_complete
    · rintro e' he
      cases he
      exact hwhy
  · rw [hresolve] at hexpanded
    obtain ⟨left, hwalk⟩ := walk_of_resolve depth hresolve
    have hd := (hwalk.isClosed Closure.isClosed_empty).1.distinct
    obtain ⟨hbuild, horder⟩ := outcome_build_of_walked hset hroots hd hresolve hexpanded
    obtain ⟨singles, rfl, htidy⟩ := hexpanded.tidy
    refine ⟨.ok ⟨c.files, roots⟩, singles, hbuild, htidy.logged, fun _ => ?_, ?_, by simp⟩
    · exact iff_of_true ⟨_, rfl⟩ (horder.complete hd)
    · rintro req hreq
      cases hreq
      exact ⟨rfl, hd, fun n => horder.mem_names_iff, horder,
        fun n hn => htidy.asked n (Or.inl hn)⟩

/-- A file with two imports that import the same file. -/
def diamond : List FileDescriptor :=
  [.ofImports "a" ["b", "c"], .ofImports "b" ["d"], .ofImports "c" ["d"], .ofImports "d" []]

/-- What is built from `diamond`, and the calls for it. -/
def buildDiamond (roots : List String) : Except Failure CompilationRequest × List (List String) :=
  outcome (build (tableSource diamond fun _ => .io "no such file") 4 roots) []

/-- The roots are a file and one of its imports, which is compiled a second time. -/
theorem diamond_order :
    ∃ req, buildDiamond ["a", "b"] = (.ok req, [["a", "b"], ["b"], ["d"], ["c"]]) ∧
      req.names = ["d", "b", "c", "a"] ∧ Complete diamond ["a", "b"] ∧
      PostOrder diamond [] ["a", "b"] req.files := by
  obtain ⟨result, singles, hrun, -, hiff, hok, -⟩ :=
    build_of_table diamond (fun _ => .io "no such file") 4 (List.cons_ne_nil "a" ["b"]) (by decide)
  have hbuilt : buildDiamond ["a", "b"] =
      (.ok ⟨[.ofImports "d" [], .ofImports "b" ["d"], .ofImports "c" ["d"],
        .ofImports "a" ["b", "c"]], ["a", "b"]⟩, [["a", "b"], ["b"], ["d"], ["c"]]) := rfl
  have hresult : result = _ := congrArg Prod.fst (hrun.symm.trans hbuilt)
  exact ⟨_, hbuilt, rfl, (hiff (by decide)).mp ⟨_, hresult⟩, (hok _ hresult).2.2.2.1⟩

end CompilationRequest

end ProtoForge.Resolution
