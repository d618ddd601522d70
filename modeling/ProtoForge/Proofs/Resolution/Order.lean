import ProtoForge.Resolution.Request
import Mathlib.Tactic

/-!
# Files after their imports

A list of files of different names in which each file comes after all that it
imports passes the check of a request. Its graph of imports has no cycle: an
edge leads to a later node, so each round of removals takes away one more.
-/
namespace ProtoForge.Resolution

variable {files : List FileDescriptor} {f : FileDescriptor} {seen names : List String} {n : String}

/-- Every file imports only names that were seen before it. -/
def ImportsFirst : List String → List FileDescriptor → Prop
  | _, [] => True
  | seen, f :: rest => (∀ d ∈ f.dependencies, d ∈ seen) ∧ ImportsFirst (seen ++ [f.name]) rest

theorem importsFirst_append {more : List FileDescriptor} :
    ImportsFirst seen (files ++ more) ↔
      ImportsFirst seen files ∧ ImportsFirst (seen ++ files.map (·.name)) more := by
  induction files generalizing seen with
  | nil => simp [ImportsFirst]
  | cons f rest ih => simp [ImportsFirst, ih, and_assoc]

theorem mem_of_importsFirst (h : ImportsFirst seen files) (hf : f ∈ files)
    (hn : n ∈ f.dependencies) : n ∈ seen ++ files.map (·.name) := by
  induction files generalizing seen with
  | nil => simp at hf
  | cons g rest ih =>
    rcases List.mem_cons.mp hf with rfl | hrest
    · exact List.mem_append_left _ (h.1 n hn)
    · rw [List.map_cons, List.append_cons]
      exact ih h.2 hrest

namespace CompilationRequest

theorem repeated?_eq_none (h : (seen ++ names).Nodup) : repeated? seen names = none := by
  induction names generalizing seen with
  | nil => rfl
  | cons n rest ih =>
    have hn : n ∉ seen := by
      intro hmem
      rw [List.nodup_append] at h
      exact h.2.2 n hmem n List.mem_cons_self rfl
    rw [repeated?, if_neg (by simpa using hn)]
    refine ih ?_
    rw [List.cons_append]
    exact List.nodup_middle.mp h

/-- An import that stands before a file is found there. -/
theorem checkImport_eq_ok {after : List String} (hn : n ∈ seen) (name : String) :
    checkImport (seen ++ after) seen.length name n = .ok () := by
  rw [checkImport]
  cases hpos : (seen ++ after).idxOf? n with
  | none => exact absurd (List.mem_append_left after hn) (List.idxOf?_eq_none_iff.mp hpos)
  | some position =>
    obtain ⟨hlt, -, hfirst⟩ := List.idxOf?_eq_some_iff.mp hpos
    have hseen : seen.idxOf n < seen.length := List.idxOf_lt_length_of_mem hn
    have hle : position ≤ seen.idxOf n := by
      by_contra hlater
      refine hfirst (seen.idxOf n) (by omega) ?_
      simp [List.getElem_append_left hseen]
    dsimp only
    rw [if_neg (by omega)]

theorem checkImports_eq_ok (h : ImportsFirst seen files) :
    checkImports (seen ++ files.map (·.name)) seen.length files = .ok () := by
  induction files generalizing seen with
  | nil => rfl
  | cons f rest ih =>
    obtain ⟨hf, hrest⟩ := h
    have himports : f.dependencies.forM
        (checkImport (seen ++ (f :: rest).map (·.name)) seen.length f.name) = .ok () := by
      clear ih hrest
      generalize f.dependencies = ds at hf
      induction ds with
      | nil => rfl
      | cons d ds ihd =>
        change checkImport _ _ _ d >>= (fun _ => List.forM ds _) = _
        rw [checkImport_eq_ok (hf d List.mem_cons_self)]
        exact ihd fun d' hd' => hf d' (List.mem_cons_of_mem d hd')
    have htail := ih hrest
    rw [List.append_assoc, List.length_append] at htail
    rw [checkImports, himports]
    exact htail

end CompilationRequest

namespace DependencyGraph

theorem eraseDups_of_nodup (h : names.Nodup) : names.eraseDups = names := by
  induction names with
  | nil => rfl
  | cons n rest ih =>
    obtain ⟨hn, hrest⟩ := List.nodup_cons.mp h
    have hkept : rest.filter (fun m => !m == n) = rest := by
      refine List.filter_eq_self.mpr fun m hm => ?_
      have hne : m ≠ n := fun he => hn (he ▸ hm)
      simpa using hne
    rw [List.eraseDups_cons, hkept, ih hrest]

/-- Each import of an ordered file has an earlier place among the names. -/
theorem idxOf_lt_of_importsFirst (h : ImportsFirst seen files)
    (hd : (seen ++ files.map (·.name)).Nodup) (hf : f ∈ files) (hn : n ∈ f.dependencies) :
    (seen ++ files.map (·.name)).idxOf n < (seen ++ files.map (·.name)).idxOf f.name := by
  induction files generalizing seen with
  | nil => simp at hf
  | cons g rest ih =>
    rcases List.mem_cons.mp hf with rfl | hrest
    · have hseen : n ∈ seen := h.1 n hn
      have hnew : f.name ∉ seen := by
        intro hmem
        rw [List.nodup_append] at hd
        exact hd.2.2 f.name hmem f.name (by simp) rfl
      rw [List.idxOf_append_of_mem hseen, List.idxOf_append_of_notMem hnew]
      have hlt := List.idxOf_lt_length_of_mem hseen
      omega
    · rw [List.map_cons, List.append_cons]
      refine ih h.2 ?_ hrest
      rwa [List.map_cons, List.append_cons] at hd

/-- When all edges lead to later nodes, each round of removals leaves only later ones. -/
theorem hasCoreAfter_eq_false {g : DependencyGraph} (hedges : ∀ e ∈ g.edges, e.1 < e.2)
    (rounds : ℕ) (among : List ℕ) (k : ℕ) (hlow : ∀ n ∈ among, k ≤ n)
    (hhigh : ∀ n ∈ among, n < k + rounds) : g.hasCoreAfter rounds among = false := by
  induction rounds generalizing among k with
  | zero =>
    cases among with
    | nil => rfl
    | cons n rest =>
      have h1 := hlow n List.mem_cons_self
      have h2 := hhigh n List.mem_cons_self
      omega
  | succ rounds ih =>
    rw [hasCoreAfter]
    refine ih (g.reachedFrom among) (k + 1) (fun n hn => ?_) (fun n hn => ?_)
    · obtain ⟨-, hreached⟩ := List.mem_filter.mp hn
      obtain ⟨e, he, hboth⟩ := List.any_eq_true.mp hreached
      obtain ⟨h2, h1⟩ : e.2 = n ∧ e.1 ∈ among := by simpa using hboth
      have hlt := hedges e he
      have hle := hlow e.1 h1
      omega
    · have hlt := hhigh n (List.mem_filter.mp hn).1
      omega

/-- The nodes of ordered files are their names. -/
theorem nodes_ofFiles_of_importsFirst (h : ImportsFirst [] files)
    (hd : (files.map (·.name)).Nodup) : (ofFiles files).nodes = files.map (·.name) := by
  have hnone : (files.flatMap (·.dependencies)).removeAll (files.map (·.name)) = [] := by
    refine List.filter_eq_nil_iff.mpr fun n hn => ?_
    obtain ⟨f, hf, hdep⟩ := List.mem_flatMap.mp hn
    have hname : n ∈ files.map (·.name) := by simpa using mem_of_importsFirst h hf hdep
    rw [List.elem_eq_true_of_mem hname]
    decide
  rw [nodes_ofFiles, List.eraseDups_append, hnone, eraseDups_of_nodup hd, List.eraseDups_nil,
    List.append_nil]

theorem isCyclic_ofFiles (h : ImportsFirst [] files) (hd : (files.map (·.name)).Nodup) :
    (ofFiles files).isCyclic = false := by
  have hnodes := nodes_ofFiles_of_importsFirst h hd
  refine hasCoreAfter_eq_false (fun e he => ?_) _ _ 0 (by simp) (by simp)
  obtain ⟨f, hf, d, hdep, rfl⟩ := exists_import_of_mem_edges he
  rw [hnodes]
  simpa using idxOf_lt_of_importsFirst h (by simpa using hd) hf hdep

end DependencyGraph

/-- Files of different names that come after their imports are in order. -/
theorem CompilationRequest.verifyOrder_eq_ok {roots : List String} (h : ImportsFirst [] files)
    (hd : (files.map (·.name)).Nodup) :
    CompilationRequest.verifyOrder ⟨files, roots⟩ = .ok () := by
  have himports := checkImports_eq_ok h
  rw [List.nil_append] at himports
  have hcycle : (dependencyGraph ⟨files, roots⟩).isCyclic = false :=
    DependencyGraph.isCyclic_ofFiles h hd
  have hrepeated : repeated? [] (names ⟨files, roots⟩) = none :=
    repeated?_eq_none (by simpa [names] using hd)
  rw [verifyOrder, hrepeated]
  change checkImports (files.map (·.name)) 0 files >>= _ = _
  rw [show checkImports (files.map (·.name)) 0 files = .ok () from himports]
  change (if (dependencyGraph ⟨files, roots⟩).isCyclic then _ else _) = _
  rw [hcycle]
  rfl

end ProtoForge.Resolution
