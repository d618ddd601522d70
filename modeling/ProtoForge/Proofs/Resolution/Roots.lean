import ProtoForge.Proofs.Resolution.Closed

/-!
# Roots of requests

A request is built even if no descriptor came for a root, provided that a file
imports the root: the import is then closed without a file. These are the only
roots without a descriptor.
-/
namespace ProtoForge.Resolution

variable {σ : Type} {source : DescriptorSource σ} {c c' : Closure} {s s' : σ}
  {f : FileDescriptor} {left roots : List String} {task : Task} {n : String}

namespace Closure

/-- A name is done although no file of that name was emitted. -/
def IsHollow (c : Closure) (n : String) : Prop := c.contains n = true ∧ n ∉ c.names

theorem isHollow_start : (c.start f.name).IsHollow n ↔ c.IsHollow n := by
  simp [IsHollow, names]

/-- Emitting a file leaves the same names hollow. -/
theorem isHollow_finish : (c.finish f).IsHollow n ↔ c.IsHollow n := by
  rw [IsHollow, IsHollow, contains_finish, names, files_finish]
  by_cases hknown : c.contains f.name = true
  · rw [if_pos hknown]
    constructor
    · rintro ⟨rfl | hn, hnames⟩
      · exact ⟨hknown, hnames⟩
      · exact ⟨hn, hnames⟩
    · rintro ⟨hn, hnames⟩
      exact ⟨Or.inr hn, hnames⟩
  · rw [if_neg hknown, List.map_append, List.mem_append, not_or]
    constructor
    · rintro ⟨rfl | hn, hnames, hself⟩
      · simp at hself
      · exact ⟨hn, hnames⟩
    · rintro ⟨hn, hnames⟩
      refine ⟨Or.inr hn, hnames, ?_⟩
      rintro hself
      obtain rfl : n = f.name := by simpa using hself
      exact hknown hn

/-- Closing an import makes it hollow unless it is done already. -/
theorem isHollow_markVisited (hc : c.IsClosed) {d : String} :
    (c.markVisited d).IsHollow n ↔
      c.IsHollow n ∨ n ∈ (if c.contains d then [] else [d]) := by
  rw [IsHollow, IsHollow, contains_markVisited, names, files_markVisited]
  by_cases hknown : c.contains d = true
  · rw [if_pos hknown]
    constructor
    · rintro ⟨rfl | hn, hnames⟩
      · exact Or.inl ⟨hknown, hnames⟩
      · exact Or.inl ⟨hn, hnames⟩
    · rintro (⟨hn, hnames⟩ | hn)
      · exact ⟨Or.inr hn, hnames⟩
      · simp at hn
  · rw [if_neg hknown]
    constructor
    · rintro ⟨rfl | hn, hnames⟩
      · exact Or.inr (by simp)
      · exact Or.inl ⟨hn, hnames⟩
    · rintro (⟨hn, hnames⟩ | hn)
      · exact ⟨Or.inr hn, hnames⟩
      · obtain rfl : n = d := by simpa using hn
        exact ⟨Or.inl rfl, fun hmem => hknown (hc.emitted n hmem)⟩

end Closure

/-- A walk adds to the hollow names those imports that it closes without a descriptor. -/
theorem Walk.isHollow_iff (h : Walk source left task c s c' s') (hc : c.IsClosed) :
    c'.IsHollow n ↔ c.IsHollow n ∨ n ∈ left := by
  induction h with
  | done c s => simp
  | known hf rest ih => exact ih hc
  | @expand left₁ left₂ f fs c s c₁ s₁ c' s' hf below rest ihbelow ihrest =>
    obtain ⟨hclosed₁, -, himports⟩ := below.isClosed (hc.start f.name)
    rw [ihrest (hclosed₁.finish himports), Closure.isHollow_finish,
      ihbelow (hc.start f.name), Closure.isHollow_start, List.mem_append, or_assoc]
  | satisfied c s => simp
  | contained hd rest ih => exact ih hc
  | @bring left₁ left₂ d ds c s s₁ set s₂ c₁ s₃ c' s' hd hfree hlocate hcompile nested rest
      ihnested ihrest =>
    obtain ⟨hclosed₁, -, -⟩ := nested.isClosed hc
    rw [ihrest (hclosed₁.markVisited d), Closure.isHollow_markVisited hclosed₁, ihnested hc,
      List.mem_append, List.mem_append, or_assoc, or_assoc, or_assoc]

/-- What a walk from no files leaves hollow. -/
theorem Walk.isHollow_iff_mem (h : Walk source left task .empty s c' s') :
    c'.IsHollow n ↔ n ∈ left := by
  have hempty : ¬ Closure.empty.IsHollow n := by
    simp [Closure.IsHollow, Closure.contains, Closure.empty]
  rw [h.isHollow_iff Closure.isClosed_empty, or_iff_right hempty]

/-- An import that is closed without a descriptor was compiled alone, and the answer has no file
of that name. -/
theorem Walk.compiled_of_mem (h : Walk source left task c s c' s') (hc : c.IsClosed)
    (hn : n ∈ left) :
    ∃ t set t', outcome (source.compile [n]) t = (.ok set, t') ∧ ∀ f ∈ set, f.name ≠ n := by
  induction h with
  | done c s => simp at hn
  | known hf rest ih => exact ih hc hn
  | @expand left₁ left₂ f fs c s c₁ s₁ c' s' hf below rest ihbelow ihrest =>
    obtain ⟨hclosed₁, -, himports⟩ := below.isClosed (hc.start f.name)
    rcases List.mem_append.mp hn with hn | hn
    · exact ihbelow (hc.start f.name) hn
    · exact ihrest (hclosed₁.finish himports) hn
  | satisfied c s => simp at hn
  | contained hd rest ih => exact ih hc hn
  | @bring left₁ left₂ d ds c s s₁ set s₂ c₁ s₃ c' s' hd hfree hlocate hcompile nested rest
      ihnested ihrest =>
    obtain ⟨hclosed₁, -, hcovered⟩ := nested.isClosed hc
    rcases List.mem_append.mp hn with hn | hn
    · rcases List.mem_append.mp hn with hn | hn
      · exact ihnested hc hn
      · by_cases hknown : c₁.contains d = true
        · simp [hknown] at hn
        · obtain rfl : n = d := by simpa [hknown] using hn
          refine ⟨s₁, set, s₂, hcompile, fun f hf hname => hknown ?_⟩
          rw [← hname]
          exact hcovered f hf
    · exact ihrest (hclosed₁.markVisited d) hn

namespace CompilationRequest

variable {depth : ℕ} {req : CompilationRequest}

theorem eq_of_build (h : outcome (build source depth roots) s = (.ok req, s')) :
    ∃ set s₁ closure, outcome (source.compile roots) s = (.ok set, s₁) ∧
      outcome (resolve source depth set .empty) s₁ = (.ok closure, s') ∧
      (∀ r ∈ roots, closure.contains r = true) ∧ req = ⟨closure.files, roots⟩ := by
  rw [outcome_build] at h
  split_ifs at h with hnone
  · simp at h
  rcases hcompile : outcome (source.compile roots) s with ⟨e | set, s₁⟩
  · simp [hcompile] at h
  rw [hcompile] at h
  dsimp only at h
  rcases hresolve : outcome (resolve source depth set .empty) s₁ with ⟨e | closure, s₂⟩
  · simp [hresolve] at h
  rw [hresolve] at h
  dsimp only at h
  cases hmissing : missingRoot? closure roots with
  | some root => simp [hmissing] at h
  | none =>
    rw [hmissing] at h
    dsimp only at h
    cases hverify : verifyOrder ⟨closure.files, roots⟩ with
    | error fault => simp [hverify] at h
    | ok u =>
      rw [hverify] at h
      cases h
      refine ⟨set, s₁, closure, rfl, hresolve, fun r hr => ?_, rfl⟩
      simpa using List.find?_eq_none.mp hmissing r hr

/-- A build leaves a property of the compiler's state that every question to it keeps. -/
theorem build_preserves {P : σ → Prop} (hsource : source.Preserves P)
    (h : outcome (build source depth roots) s = (.ok req, s')) (hs : P s) : P s' := by
  obtain ⟨set, s₁, closure, hcompile, hresolve, -, -⟩ := eq_of_build h
  have hcompiled := hsource.compile roots s hs
  rw [hcompile] at hcompiled
  obtain ⟨left, hwalk⟩ := walk_of_resolve depth hresolve
  exact hwalk.preserves hsource hcompiled

/-- A root of a request has a descriptor among the files for generators unless the walk closed it
as an import for which no descriptor came, after compiling it alone. -/
theorem root_has_descriptor_iff (h : outcome (build source depth roots) s = (.ok req, s')) :
    ∃ left, (∃ set s₁ closure, outcome (source.compile roots) s = (.ok set, s₁) ∧
        Walk source left (.files set) .empty s₁ closure s' ∧ closure.files = req.files) ∧
      (∀ n ∈ left, ∃ t set t', outcome (source.compile [n]) t = (.ok set, t') ∧
        ∀ f ∈ set, f.name ≠ n) ∧
      ((∀ r ∈ req.toGeneratorRequest.filesToGenerate,
          ∃ f ∈ req.toGeneratorRequest.files, f.name = r) ↔ ∀ r ∈ roots, r ∉ left) := by
  obtain ⟨set, s₁, closure, hcompile, hresolve, hroots, rfl⟩ := eq_of_build h
  obtain ⟨left, hwalk⟩ := walk_of_resolve depth hresolve
  refine ⟨left, ⟨set, s₁, closure, hcompile, hwalk, rfl⟩,
    fun n hn => hwalk.compiled_of_mem Closure.isClosed_empty hn, ?_⟩
  have hhollow : ∀ r ∈ roots, (∃ f ∈ closure.files, f.name = r) ↔ r ∉ left := by
    intro r hr
    rw [← hwalk.isHollow_iff_mem, Closure.IsHollow, not_and, not_not, Closure.names]
    simp [hroots r hr]
  exact forall₂_congr hhollow

/-- The request that `shadowing` leads to from its root. -/
def shadowedRequest : CompilationRequest := ⟨shadowed.files, ["r"]⟩

theorem build_shadowing :
    outcome (build shadowing 3 ["r"]) () = (.ok shadowedRequest, ()) := rfl

theorem shadowed_root_iff :
    ∃ left : List String,
      (∀ n ∈ left, ∃ t set t', outcome (shadowing.compile [n]) t = (.ok set, t') ∧
        ∀ f ∈ set, f.name ≠ n) ∧
      ((∀ r ∈ shadowedRequest.toGeneratorRequest.filesToGenerate,
          ∃ f ∈ shadowedRequest.toGeneratorRequest.files, f.name = r) ↔
        ∀ r ∈ shadowedRequest.roots, r ∉ left) := by
  obtain ⟨left, -, hleft, hiff⟩ := root_has_descriptor_iff build_shadowing
  exact ⟨left, hleft, hiff⟩

/-- A request can be built from a root for which no descriptor came. -/
theorem root_without_descriptor :
    outcome (build shadowing 3 ["r"]) () = (.ok ⟨shadowed.files, ["r"]⟩, ()) ∧
      ¬ ∀ r ∈ ["r"], ∃ f ∈ shadowed.files, f.name = r := by
  refine ⟨rfl, fun h => ?_⟩
  obtain ⟨f, hf, hname⟩ := h "r" List.mem_cons_self
  simp [shadowed] at hf
  rcases hf with rfl | rfl <;> simp at hname

/-- A compiler that answers for each import with a file of that name leaves no root without a
descriptor. -/
theorem roots_have_descriptors
    (hanswer : ∀ n t set t', outcome (source.compile [n]) t = (.ok set, t') →
      ∃ f ∈ set, f.name = n)
    (h : outcome (build source depth roots) s = (.ok req, s')) :
    ∀ r ∈ roots, ∃ f ∈ req.files, f.name = r := by
  obtain ⟨set, s₁, closure, -, hresolve, hroots, rfl⟩ := eq_of_build h
  obtain ⟨left, hwalk⟩ := walk_of_resolve depth hresolve
  intro r hr
  by_contra hnone
  have hleft : r ∈ left :=
    hwalk.isHollow_iff_mem.mp ⟨hroots r hr, by simpa [Closure.names] using hnone⟩
  obtain ⟨t, set', t', hcompile, hname⟩ := hwalk.compiled_of_mem Closure.isClosed_empty hleft
  obtain ⟨f, hf, heq⟩ := hanswer r t set' t' hcompile
  exact hname f hf heq

end CompilationRequest

end ProtoForge.Resolution
