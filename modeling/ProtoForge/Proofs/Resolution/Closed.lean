import ProtoForge.Proofs.Resolution.Walk

/-!
# Closed closures

What every closure has that a compiler can lead to, whatever it answers: the
names of the emitted files differ, and the imports of each are contained. A
walk keeps this and only adds to the closure.
-/
namespace ProtoForge.Resolution

variable {σ : Type} {source : DescriptorSource σ} {c c' c'' : Closure} {s s' : σ}
  {set : List FileDescriptor} {f : FileDescriptor} {left : List String} {task : Task} {n : String}

/-- Emitted names differ and are contained, as are the imports of emitted files. -/
structure Closure.IsClosed (c : Closure) : Prop where
  distinct : c.names.Nodup
  emitted : ∀ n ∈ c.names, c.contains n = true
  imports : ∀ f ∈ c.files, ∀ d ∈ f.dependencies, c.contains d = true

/-- Nothing of a closure is lost in another, and its files come first. -/
structure Closure.Extends (c' c : Closure) : Prop where
  files : c.files <+: c'.files
  contains : ∀ n, c.contains n = true → c'.contains n = true

/-- What a task asks for is contained. -/
def Task.Covered : Task → Closure → Prop
  | files set, c => ∀ f ∈ set, c.contains f.name = true
  | imports names, c => ∀ d ∈ names, c.contains d = true

namespace Closure

theorem isClosed_empty : empty.IsClosed := ⟨.nil, by simp [names, empty], by simp [empty]⟩

theorem IsClosed.start (h : c.IsClosed) (n : String) : (c.start n).IsClosed := by
  refine ⟨?_, ?_, ?_⟩
  · simpa [names] using h.distinct
  · simpa [names] using h.emitted
  · simpa using h.imports

theorem IsClosed.markVisited (h : c.IsClosed) (n : String) : (c.markVisited n).IsClosed := by
  refine ⟨by simpa [names] using h.distinct, fun m hm => ?_, fun f hf d hd => ?_⟩
  · rw [names, files_markVisited] at hm
    exact contains_markVisited.mpr (Or.inr (h.emitted m hm))
  · rw [files_markVisited] at hf
    exact contains_markVisited.mpr (Or.inr (h.imports f hf d hd))

/-- Emitting a file whose imports are contained. -/
theorem IsClosed.finish (h : c.IsClosed) (hf : ∀ d ∈ f.dependencies, c.contains d = true) :
    (c.finish f).IsClosed := by
  have hmono : ∀ d, c.contains d = true → (c.finish f).contains d = true := fun d hd =>
    contains_finish.mpr (Or.inr hd)
  by_cases hknown : c.contains f.name = true
  · have hfiles : (c.finish f).files = c.files := by rw [files_finish, if_pos hknown]
    refine ⟨by simpa [names, hfiles] using h.distinct, fun m hm => ?_, fun g hg d hd => ?_⟩
    · rw [names, hfiles] at hm
      exact hmono m (h.emitted m hm)
    · rw [hfiles] at hg
      exact hmono d (h.imports g hg d hd)
  · have hfiles : (c.finish f).files = c.files ++ [f] := by rw [files_finish, if_neg hknown]
    refine ⟨?_, fun m hm => ?_, fun g hg d hd => ?_⟩
    · have hnew : f.name ∉ c.names := fun hmem => hknown (h.emitted _ hmem)
      rw [names, hfiles, List.map_append, List.map_singleton, List.nodup_append]
      refine ⟨h.distinct, by simp, fun a ha b hb heq => hnew ?_⟩
      rw [List.mem_singleton.mp hb] at heq
      exact heq ▸ ha
    · rw [names, hfiles, List.map_append, List.mem_append] at hm
      rcases hm with hm | hm
      · exact hmono m (h.emitted m hm)
      · exact contains_finish.mpr (Or.inl (by simpa using hm))
    · rw [hfiles] at hg
      rcases List.mem_append.mp hg with hg | hg
      · exact hmono d (h.imports g hg d hd)
      · rw [List.mem_singleton.mp hg] at hd
        exact hmono d (hf d hd)

theorem Extends.refl (c : Closure) : c.Extends c := ⟨List.prefix_rfl, fun _ h => h⟩

theorem Extends.trans (h : c''.Extends c') (h' : c'.Extends c) : c''.Extends c :=
  ⟨h'.files.trans h.files, fun n hn => h.contains n (h'.contains n hn)⟩

theorem extends_start (c : Closure) (n : String) : (c.start n).Extends c :=
  ⟨by simp, by simp⟩

theorem extends_markVisited (c : Closure) (n : String) : (c.markVisited n).Extends c :=
  ⟨by simp, fun _ h => contains_markVisited.mpr (Or.inr h)⟩

theorem extends_finish (c : Closure) (f : FileDescriptor) : (c.finish f).Extends c := by
  refine ⟨?_, fun _ h => contains_finish.mpr (Or.inr h)⟩
  rw [files_finish]
  split_ifs
  · exact List.prefix_rfl
  · exact List.prefix_append _ _

end Closure

/-- A walk leads from a closed closure to a larger one that covers what was asked for. -/
theorem Walk.isClosed (h : Walk source left task c s c' s') (hc : c.IsClosed) :
    c'.IsClosed ∧ c'.Extends c ∧ task.Covered c' := by
  induction h with
  | done c s => exact ⟨hc, .refl c, by simp [Task.Covered]⟩
  | known hf rest ih =>
    obtain ⟨hclosed, hextends, hcovered⟩ := ih hc
    exact ⟨hclosed, hextends, List.forall_mem_cons.mpr ⟨hextends.contains _ hf, hcovered⟩⟩
  | @expand left₁ left₂ f fs c s c₁ s₁ c' s' hf below rest ihbelow ihrest =>
    obtain ⟨hclosed₁, hextends₁, himports⟩ := ihbelow (hc.start f.name)
    obtain ⟨hclosed, hextends, hcovered⟩ := ihrest (hclosed₁.finish himports)
    have hself : c'.contains f.name = true :=
      hextends.contains _ (Closure.contains_finish.mpr (Or.inl rfl))
    have hall : c'.Extends c := hextends.trans
      ((c₁.extends_finish f).trans (hextends₁.trans (c.extends_start f.name)))
    exact ⟨hclosed, hall, List.forall_mem_cons.mpr ⟨hself, hcovered⟩⟩
  | satisfied c s => exact ⟨hc, .refl c, by simp [Task.Covered]⟩
  | contained hd rest ih =>
    obtain ⟨hclosed, hextends, hcovered⟩ := ih hc
    exact ⟨hclosed, hextends, List.forall_mem_cons.mpr ⟨hextends.contains _ hd, hcovered⟩⟩
  | @bring left₁ left₂ d ds c s s₁ set s₂ c₁ s₃ c' s' hd hfree hlocate hcompile nested rest
      ihnested ihrest =>
    obtain ⟨hclosed₁, hextends₁, -⟩ := ihnested hc
    obtain ⟨hclosed, hextends, hcovered⟩ := ihrest (hclosed₁.markVisited d)
    have hself : c'.contains d = true :=
      hextends.contains _ (Closure.contains_markVisited.mpr (Or.inl rfl))
    have hall : c'.Extends c := hextends.trans ((c₁.extends_markVisited d).trans hextends₁)
    exact ⟨hclosed, hall, List.forall_mem_cons.mpr ⟨hself, hcovered⟩⟩

/-- A set of contained files is resolved without a question to the compiler. -/
theorem resolve_of_covered (source : DescriptorSource σ) (depth : ℕ) (s : σ)
    (h : ∀ f ∈ set, c.contains f.name = true) :
    outcome (resolve source (depth + 1) set c) s = (.ok c, s) := by
  rw [resolve]
  induction set with
  | nil => rfl
  | cons f fs ih =>
    rw [outcome_foldlM_cons, outcome_resolveFile, if_pos (h f List.mem_cons_self)]
    exact ih fun g hg => h g (List.mem_cons_of_mem f hg)

/-- The closures that successful resolving leads to from no files, each step with a compiler, a
state and a depth of its own. -/
inductive Reached : Closure → Prop
  | empty : Reached .empty
  | resolve {σ : Type} {source : DescriptorSource σ} {depth : ℕ} {set : List FileDescriptor}
      {c c' : Closure} {s s' : σ} (hc : Reached c)
      (h : outcome (resolve source depth set c) s = (.ok c', s')) : Reached c'

theorem Reached.isClosed (h : Reached c) : c.IsClosed := by
  induction h with
  | empty => exact Closure.isClosed_empty
  | resolve hc h ih =>
    obtain ⟨left, hwalk⟩ := walk_of_resolve _ h
    exact (hwalk.isClosed ih).1

/-- Resolving, whatever the compiler answers: the files so far come first, names are emitted once,
all that was emitted or asked for is contained and so are its imports, nothing contained is lost,
and resolving the same set again changes nothing and asks no compiler. -/
theorem resolve_keeps_closure_invariant {depth : ℕ} (hc : Reached c)
    (h : outcome (resolve source depth set c) s = (.ok c', s')) :
    c.files <+: c'.files ∧ c'.names.Nodup ∧ (∀ f ∈ c'.files, c'.contains f.name = true) ∧
      (∀ f ∈ set, c'.contains f.name = true) ∧
      (∀ n, c.contains n = true → c'.contains n = true) ∧
      (∀ f ∈ c'.files, ∀ d ∈ f.dependencies, c'.contains d = true) ∧
      ∀ {τ : Type} (source' : DescriptorSource τ) (depth' : ℕ) (t : τ),
        outcome (resolve source' (depth' + 1) set c') t = (.ok c', t) := by
  obtain ⟨left, hwalk⟩ := walk_of_resolve depth h
  obtain ⟨hclosed, hextends, hcovered⟩ := hwalk.isClosed hc.isClosed
  refine ⟨hextends.files, hclosed.distinct, ?_, hcovered, hextends.contains, hclosed.imports, ?_⟩
  · exact fun f hf => hclosed.emitted f.name (List.mem_map_of_mem hf)
  · exact fun source' depth' t => resolve_of_covered source' depth' t hcovered

/-- A compiler that answers with another file of the name `f` while `f` is being expanded, and for
`r` never with a file of that name. -/
def shadowing : DescriptorSource Unit where
  locate _ := pure true
  compile names :=
    if names = ["r"] then pure [.ofImports "f" ["x", "r"]]
    else if names = ["x"] then pure [.ofImports "f" [], .ofImports "x" []]
    else throw (.io "no such file")

/-- What `shadowing` leads to from its answer for `r`. -/
def shadowed : Closure := ⟨["r", "x", "f"], [], [.ofImports "f" [], .ofImports "x" []]⟩

theorem shadowed_is_invariant :
    Reached .empty ∧
      outcome (resolve shadowing 3 [.ofImports "f" ["x", "r"]] .empty) () = (.ok shadowed, ()) ∧
      shadowed.names.Nodup ∧ (∀ f ∈ shadowed.files, shadowed.contains f.name = true) ∧
      ∀ {τ : Type} (source : DescriptorSource τ) (depth : ℕ) (t : τ),
        outcome (resolve source (depth + 1) [.ofImports "f" ["x", "r"]] shadowed) t =
          (.ok shadowed, t) := by
  have h : outcome (resolve shadowing 3 [.ofImports "f" ["x", "r"]] .empty) () =
      (.ok shadowed, ()) := rfl
  obtain ⟨-, hdistinct, hemitted, -, -, -, hagain⟩ := resolve_keeps_closure_invariant .empty h
  exact ⟨.empty, h, hdistinct, hemitted, hagain⟩

end ProtoForge.Resolution
