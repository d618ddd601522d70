import ProtoForge.Proofs.Resolution.Order

/-!
# What the check of a request accepts

A request is in order if its names differ and every file comes after all that
it imports. The check accepts these requests and no others. Removing the nodes
that no edge reaches, round by round, ends with nothing unless the graph of
imports has a cycle; what passes the checks before has none, so the look for
cycles refuses nothing.
-/
namespace ProtoForge.Resolution

namespace DependencyGraph

variable {g : DependencyGraph} {files : List FileDescriptor} {among : List ℕ} {n rounds : ℕ}

/-- An edge leads from one node to another. -/
def Edge (g : DependencyGraph) (a b : ℕ) : Prop := (a, b) ∈ g.edges

/-- A path of at least one edge leads back to the node. -/
def OnCycle (g : DependencyGraph) (n : ℕ) : Prop := Relation.TransGen g.Edge n n

theorem mem_reachedFrom :
    n ∈ g.reachedFrom among ↔ n ∈ among ∧ ∃ a ∈ among, g.Edge a n := by
  rw [reachedFrom, List.mem_filter, List.any_eq_true]
  refine and_congr_right fun _ => ⟨?_, ?_⟩
  · rintro ⟨⟨a, b⟩, he, hboth⟩
    obtain ⟨rfl, ha⟩ : b = n ∧ a ∈ among := by simpa using hboth
    exact ⟨a, ha, he⟩
  · rintro ⟨a, ha, he⟩
    exact ⟨(a, n), he, by simpa using ha⟩

/-- A node on a cycle has another one before it. -/
theorem OnCycle.exists_edge (h : g.OnCycle n) : ∃ a, g.OnCycle a ∧ g.Edge a n := by
  obtain ⟨a, hna, hedge⟩ := Relation.TransGen.tail'_iff.mp h
  exact ⟨a, Relation.TransGen.head' hedge hna, hedge⟩

/-- Nodes on cycles are never removed. -/
theorem hasCoreAfter_of_onCycle (hn : g.OnCycle n) (hall : ∀ m, g.OnCycle m → m ∈ among) :
    g.hasCoreAfter rounds among = true := by
  induction rounds generalizing among with
  | zero =>
    have hne : among ≠ [] := List.ne_nil_of_mem (hall n hn)
    simpa [hasCoreAfter, List.isEmpty_iff] using hne
  | succ rounds ih =>
    rw [hasCoreAfter]
    refine ih fun m hm => mem_reachedFrom.mpr ⟨hall m hm, ?_⟩
    obtain ⟨a, ha, hedge⟩ := hm.exists_edge
    exact ⟨a, hall a ha, hedge⟩

/-- Without cycles, edges from a finite set of nodes leave one of them out. -/
theorem exists_unreached (hacyclic : ∀ m, ¬ g.OnCycle m) (hne : among ≠ []) :
    ∃ m ∈ among, m ∉ g.reachedFrom among := by
  let before : {m // m ∈ among} → {m // m ∈ among} → Prop :=
    fun a b => Relation.TransGen g.Edge a.1 b.1
  have : Std.Irrefl before := ⟨fun a => hacyclic a.1⟩
  have : IsTrans _ before := ⟨fun a b c => Relation.TransGen.trans⟩
  have hwf : WellFounded before := Finite.wellFounded_of_trans_of_irrefl before
  obtain ⟨n, hn⟩ := List.exists_mem_of_ne_nil among hne
  obtain ⟨⟨m, hm⟩, -, hfirst⟩ := hwf.has_min Set.univ ⟨⟨n, hn⟩, trivial⟩
  refine ⟨m, hm, fun hreached => ?_⟩
  obtain ⟨-, a, ha, hedge⟩ := mem_reachedFrom.mp hreached
  exact hfirst ⟨a, ha⟩ trivial (.single hedge)

/-- Without cycles, each round removes a node as long as there is one. -/
theorem hasCoreAfter_of_acyclic (hacyclic : ∀ m, ¬ g.OnCycle m) (hlength : among.length ≤ rounds) :
    g.hasCoreAfter rounds among = false := by
  induction rounds generalizing among with
  | zero =>
    obtain rfl : among = [] := List.length_eq_zero_iff.mp (by omega)
    rfl
  | succ rounds ih =>
    rw [hasCoreAfter]
    refine ih ?_
    by_cases hne : among = []
    · subst hne
      simp [reachedFrom]
    · obtain ⟨m, hm, hout⟩ := exists_unreached hacyclic hne
      have hshorter : (g.reachedFrom among).length < among.length := by
        refine List.length_filter_lt_length_iff_exists.mpr ⟨m, hm, fun hkept => hout ?_⟩
        exact List.mem_filter.mpr ⟨hm, hkept⟩
      omega

/-- The look for cycles finds just them, if edges start at nodes. -/
theorem isCyclic_iff (hedges : ∀ e ∈ g.edges, e.1 < g.nodes.length) :
    g.isCyclic = true ↔ ∃ n, g.OnCycle n := by
  constructor
  · intro hcyclic
    by_contra hnone
    rw [isCyclic, hasCoreAfter_of_acyclic (fun m hm => hnone ⟨m, hm⟩) (by simp)] at hcyclic
    cases hcyclic
  · rintro ⟨n, hn⟩
    refine hasCoreAfter_of_onCycle hn fun m hm => ?_
    obtain ⟨b, hedge, -⟩ := Relation.TransGen.head'_iff.mp hm
    exact List.mem_range.mpr (hedges _ hedge)

/-- The edges of a graph of imports start at its nodes. -/
theorem fst_lt_of_mem_edges (files : List FileDescriptor) :
    ∀ e ∈ (ofFiles files).edges, e.1 < (ofFiles files).nodes.length := by
  intro e he
  obtain ⟨f, hf, d, hdep, rfl⟩ := exists_import_of_mem_edges he
  have himported : d ∈ files.flatMap (·.dependencies) := List.mem_flatMap.mpr ⟨f, hf, hdep⟩
  refine List.idxOf_lt_length_of_mem ?_
  rw [nodes_ofFiles, List.mem_eraseDups]
  exact List.mem_append_right _ himported

end DependencyGraph

namespace CompilationRequest

variable {r : CompilationRequest} {files : List FileDescriptor} {f : FileDescriptor}
  {seen names : List String} {n d : String} {index : ℕ}

/-- A request whose names differ and in which every import of a file is the name of an earlier
one. -/
structure IsOrdered (r : CompilationRequest) : Prop where
  distinct : r.names.Nodup
  earlier : ∀ (i : ℕ) (f : FileDescriptor), r.files[i]? = some f →
    ∀ d ∈ f.dependencies, ∃ j < i, r.names[j]? = some d

theorem nodup_of_repeated? (hseen : seen.Nodup) (h : repeated? seen names = none) :
    (seen ++ names).Nodup := by
  induction names generalizing seen with
  | nil => simpa using hseen
  | cons n rest ih =>
    rw [repeated?] at h
    split_ifs at h with hn
    have hnew : n ∉ seen := by simpa using hn
    exact List.nodup_middle.mpr (ih (List.nodup_cons.mpr ⟨hnew, hseen⟩) h)

/-- An import passes if it is one of the names before the file's own. -/
theorem checkImport_eq_ok_iff :
    checkImport names index n d = .ok () ↔ ∃ j < index, names[j]? = some d := by
  rw [checkImport]
  cases hpos : names.idxOf? d with
  | none =>
    have habsent : d ∉ names := List.idxOf?_eq_none_iff.mp hpos
    constructor
    · intro h
      cases h
    · rintro ⟨j, -, hj⟩
      exact absurd (List.mem_of_getElem? hj) habsent
  | some position =>
    obtain ⟨hlt, hat, hfirst⟩ := List.idxOf?_eq_some_iff.mp hpos
    dsimp only
    split_ifs with hle
    · constructor
      · intro h
        cases h
      · rintro ⟨j, hj, hget⟩
        obtain ⟨_, hname⟩ := List.getElem?_eq_some_iff.mp hget
        exact absurd hname (hfirst j (by omega))
    · constructor
      · intro _
        exact ⟨position, by omega, List.getElem?_eq_some_iff.mpr ⟨hlt, hat⟩⟩
      · intro _
        rfl

theorem forM_eq_ok_iff {α ε : Type} {check : α → Except ε Unit} {xs : List α} :
    xs.forM check = .ok () ↔ ∀ x ∈ xs, check x = .ok () := by
  induction xs with
  | nil => simp [List.forM, pure, Except.pure]
  | cons x xs ih =>
    change (check x >>= fun _ => xs.forM check) = .ok () ↔ _
    cases hx : check x with
    | error e => simp [bind, Except.bind, hx]
    | ok u => simpa [bind, Except.bind, hx] using ih

/-- Files pass from a position on if each of their imports is the name of an earlier file. -/
theorem checkImports_eq_ok_iff :
    checkImports names index files = .ok () ↔
      ∀ i f, files[i]? = some f → ∀ d ∈ f.dependencies, ∃ j < index + i, names[j]? = some d := by
  induction files generalizing index with
  | nil => simp [checkImports]
  | cons f rest ih =>
    have hstep : checkImports names index (f :: rest) = .ok () ↔
        f.dependencies.forM (checkImport names index f.name) = .ok () ∧
          checkImports names (index + 1) rest = .ok () := by
      rw [checkImports]
      cases f.dependencies.forM (checkImport names index f.name) <;> simp [bind, Except.bind]
    rw [hstep, ih, forM_eq_ok_iff]
    simp only [checkImport_eq_ok_iff]
    constructor
    · rintro ⟨hfirst, hrest⟩ i g hg
      cases i with
      | zero =>
        obtain rfl : f = g := by simpa using hg
        exact hfirst
      | succ i =>
        have hlater := hrest i g (by simpa using hg)
        rwa [Nat.add_right_comm, Nat.add_assoc] at hlater
    · intro hall
      refine ⟨hall 0 f rfl, fun i g hg => ?_⟩
      have hlater := hall (i + 1) g (by simpa using hg)
      rwa [Nat.add_right_comm, Nat.add_assoc]

/-- In an ordered list, every import of a file is among the names before it. -/
theorem importsFirst_of_earlier (h : ∀ (i : ℕ) (f : FileDescriptor), files[i]? = some f →
    ∀ d ∈ f.dependencies, ∃ j < seen.length + i, (seen ++ files.map (·.name))[j]? = some d) :
    ImportsFirst seen files := by
  induction files generalizing seen with
  | nil => trivial
  | cons f rest ih =>
    refine ⟨fun d hd => ?_, ih fun i g hg d hd => ?_⟩
    · obtain ⟨j, hj, hget⟩ := h 0 f rfl d hd
      rw [List.getElem?_append_left (by omega)] at hget
      exact List.mem_of_getElem? hget
    · obtain ⟨j, hj, hget⟩ := h (i + 1) g (by simpa using hg) d hd
      rw [List.map_cons, List.append_cons] at hget
      refine ⟨j, ?_, hget⟩
      rw [List.length_append, List.length_singleton]
      omega

theorem forM_eq_error {α ε : Type} {check : α → Except ε Unit} {xs : List α} {e : ε}
    (h : xs.forM check = .error e) : ∃ x ∈ xs, check x = .error e := by
  induction xs with
  | nil => cases h
  | cons x xs ih =>
    change (check x >>= fun _ => xs.forM check) = .error e at h
    cases hx : check x with
    | error e' =>
      obtain rfl : e' = e := by simpa [bind, Except.bind, hx] using h
      exact ⟨x, List.mem_cons_self, hx⟩
    | ok u =>
      obtain ⟨y, hy, hcheck⟩ := ih (by simpa [bind, Except.bind, hx] using h)
      exact ⟨y, List.mem_cons_of_mem x hy, hcheck⟩

/-- Files that do not pass are refused for one of their imports. -/
theorem exists_import_of_error {fault : RequestFault}
    (h : checkImports names index files = .error fault) : ∃ f ∈ files, ∃ d ∈ f.dependencies,
      fault = .absent f.name d ∨ fault = .misordered f.name d := by
  induction files generalizing index with
  | nil => cases h
  | cons f rest ih =>
    rw [checkImports] at h
    cases hf : f.dependencies.forM (checkImport names index f.name) with
    | ok u =>
      rw [hf] at h
      obtain ⟨g, hg, hfault⟩ := ih h
      exact ⟨g, List.mem_cons_of_mem f hg, hfault⟩
    | error fault' =>
      rw [hf] at h
      obtain rfl : fault' = fault := Except.error.inj h
      obtain ⟨d, hd, hcheck⟩ := forM_eq_error hf
      refine ⟨f, List.mem_cons_self, d, hd, ?_⟩
      rw [checkImport] at hcheck
      split at hcheck
      · exact Or.inl (Except.error.inj hcheck).symm
      · split_ifs at hcheck
        exact Or.inr (Except.error.inj hcheck).symm

/-- The answer of the whole check is that of the looks at names and imports: where these find
nothing, there is no cycle to be found. -/
theorem verifyOrder_eq (r : CompilationRequest) :
    r.verifyOrder =
      match repeated? [] r.names with
      | some n => .error (.repeated n)
      | none => checkImports r.names 0 r.files := by
  cases hrepeated : repeated? [] r.names with
  | some n =>
    rw [verifyOrder, hrepeated]
    rfl
  | none =>
    cases himports : checkImports r.names 0 r.files with
    | error fault =>
      rw [verifyOrder, hrepeated]
      change checkImports r.names 0 r.files >>= _ = _
      rw [himports]
      rfl
    | ok u =>
      have hdistinct : r.names.Nodup := by simpa using nodup_of_repeated? List.nodup_nil hrepeated
      have hearlier := checkImports_eq_ok_iff.mp himports
      exact verifyOrder_eq_ok (importsFirst_of_earlier (by simpa [names] using hearlier)) hdistinct

/-- A request passes the check just if it is in order. It is never refused for a cycle, though the
look for cycles finds them wherever there are some. -/
theorem verifyOrder_ok_iff (r : CompilationRequest) :
    (r.verifyOrder = .ok () ↔ r.IsOrdered) ∧ r.verifyOrder ≠ .error .cyclic ∧
      (r.dependencyGraph.isCyclic = true ↔ ∃ n, r.dependencyGraph.OnCycle n) := by
  refine ⟨?_, fun hcyclic => ?_, DependencyGraph.isCyclic_iff ?_⟩
  · rw [verifyOrder_eq]
    cases hrepeated : repeated? [] r.names with
    | some n =>
      constructor
      · intro h
        cases h
      · intro h
        rw [repeated?_eq_none (by simpa using h.distinct)] at hrepeated
        cases hrepeated
    | none =>
      have hdistinct : r.names.Nodup := by simpa using nodup_of_repeated? List.nodup_nil hrepeated
      constructor
      · intro h
        exact ⟨hdistinct, by simpa using checkImports_eq_ok_iff.mp h⟩
      · intro h
        exact checkImports_eq_ok_iff.mpr (by simpa using h.earlier)
  · rw [verifyOrder_eq] at hcyclic
    split at hcyclic
    · cases hcyclic
    · obtain ⟨f, -, d, -, hfault | hfault⟩ := exists_import_of_error hcyclic
      · cases hfault
      · cases hfault
  · exact DependencyGraph.fst_lt_of_mem_edges r.files

/-- A file that imports itself is out of order, before any cycle is looked for. -/
example : verifyOrder ⟨[.ofImports "a" ["a"]], []⟩ = .error (.misordered "a" "a") := by decide

end CompilationRequest

end ProtoForge.Resolution
