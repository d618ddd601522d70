import ProtoForge.Resolution.Request
import ProtoForge.Proofs.Outcome

/-!
# Runs of the import walk

A successful walk as a derivation: which files and imports it passes over and
which it expands, whatever the compiler answers. What holds of every walk is
proved by induction on its derivation.
-/
namespace ProtoForge.Resolution

variable {σ : Type}

/-- What a walk still has to do: a set of files, or the imports of one file. -/
inductive Task where
  | files (set : List FileDescriptor)
  | imports (names : List String)

/-- The walks of a compiler from a closure and a state to others, with the imports that they close
although no descriptor came for them. -/
inductive Walk (source : DescriptorSource σ) :
    List String → Task → Closure → σ → Closure → σ → Prop
  | done (c s) : Walk source [] (.files []) c s c s
  | known {left f fs c s c' s'} (hf : c.contains f.name = true)
      (rest : Walk source left (.files fs) c s c' s') :
      Walk source left (.files (f :: fs)) c s c' s'
  | expand {left₁ left₂ f fs c s c₁ s₁ c' s'} (hf : c.contains f.name = false)
      (below : Walk source left₁ (.imports f.dependencies) (c.start f.name) s c₁ s₁)
      (rest : Walk source left₂ (.files fs) (c₁.finish f) s₁ c' s') :
      Walk source (left₁ ++ left₂) (.files (f :: fs)) c s c' s'
  | satisfied (c s) : Walk source [] (.imports []) c s c s
  | contained {left d ds c s c' s'} (hd : c.contains d = true)
      (rest : Walk source left (.imports ds) c s c' s') :
      Walk source left (.imports (d :: ds)) c s c' s'
  | bring {left₁ left₂ d ds c s s₁ set s₂ c₁ s₃ c' s'} (hd : c.contains d = false)
      (hfree : c.inProgress.contains d = false) (hlocate : (source.locate d).run s = (true, s₁))
      (hcompile : outcome (source.compile [d]) s₁ = (.ok set, s₂))
      (nested : Walk source left₁ (.files set) c s₂ c₁ s₃)
      (rest : Walk source left₂ (.imports ds) (c₁.markVisited d) s₃ c' s') :
      Walk source (left₁ ++ (if c₁.contains d then [] else [d]) ++ left₂) (.imports (d :: ds))
        c s c' s'

/-- An import that is neither done nor being expanded, and that the compiler knows. -/
structure Wanted (source : DescriptorSource σ) (c : Closure) (s : σ) (d : String) (s' : σ) :
    Prop where
  unknown : c.contains d = false
  free : c.inProgress.contains d = false
  located : (source.locate d).run s = (true, s')

/-- All the ways in which an import `d` of the file `name` ends, each with the questions to the
compiler that lead there. -/
inductive ImportEnds (source : DescriptorSource σ) (nested : SetResolver σ) (name : String)
    (c : Closure) (d : String) (s : σ) : Except Failure Closure → σ → Prop
  | contained (hd : c.contains d = true) : ImportEnds source nested name c d s (.ok c) s
  | cycle (hopen : c.inProgress.contains d = true) :
      ImportEnds source nested name c d s (.error (.dependencyCycle d)) s
  | unresolved {s₁} (hlocate : (source.locate d).run s = (false, s₁)) :
      ImportEnds source nested name c d s (.error (.unresolvedDependency d name)) s₁
  | refused {s₁ e s₂} (hd : Wanted source c s d s₁)
      (hcompile : outcome (source.compile [d]) s₁ = (.error e, s₂)) :
      ImportEnds source nested name c d s (.error e) s₂
  | failed {s₁ set s₂ e s₃} (hd : Wanted source c s d s₁)
      (hcompile : outcome (source.compile [d]) s₁ = (.ok set, s₂))
      (hset : outcome (nested set c) s₂ = (.error e, s₃)) :
      ImportEnds source nested name c d s (.error e) s₃
  | brought {s₁ set s₂ c₁ s₃} (hd : Wanted source c s d s₁)
      (hcompile : outcome (source.compile [d]) s₁ = (.ok set, s₂))
      (hset : outcome (nested set c) s₂ = (.ok c₁, s₃)) :
      ImportEnds source nested name c d s (.ok (c₁.markVisited d)) s₃

/-- All the ways in which one file of an answer ends. -/
inductive FileEnds (source : DescriptorSource σ) (nested : SetResolver σ) (c : Closure)
    (f : FileDescriptor) (s : σ) : Except Failure Closure → σ → Prop
  | known (hf : c.contains f.name = true) : FileEnds source nested c f s (.ok c) s
  | failed {e s₁} (hf : c.contains f.name = false)
      (hbelow : outcome (f.dependencies.foldlM (resolveImport source nested f.name)
        (c.start f.name)) s = (.error e, s₁)) : FileEnds source nested c f s (.error e) s₁
  | expanded {c₁ s₁} (hf : c.contains f.name = false)
      (hbelow : outcome (f.dependencies.foldlM (resolveImport source nested f.name)
        (c.start f.name)) s = (.ok c₁, s₁)) : FileEnds source nested c f s (.ok (c₁.finish f)) s₁

variable {source : DescriptorSource σ} {nested : SetResolver σ} {c c' : Closure}
  {s s' : σ} {set : List FileDescriptor} {f : FileDescriptor} {d n name : String}

namespace Closure

/-- The names of the emitted files. -/
def names (c : Closure) : List String := c.files.map (·.name)

@[simp] theorem contains_start : (c.start n).contains d = c.contains d := by
  rw [start]
  split_ifs <;> rfl

@[simp] theorem files_start : (c.start n).files = c.files := by
  rw [start]
  split_ifs <;> rfl

@[simp] theorem names_start : (c.start n).names = c.names := by
  rw [names, files_start, names]

@[simp] theorem files_markVisited : (c.markVisited n).files = c.files := by
  rw [markVisited]
  split_ifs <;> rfl

theorem contains_markVisited :
    (c.markVisited n).contains d = true ↔ d = n ∨ c.contains d = true := by
  rw [markVisited]
  split_ifs with h
  · constructor
    · exact Or.inr
    · rintro (rfl | hd)
      · exact h
      · exact hd
  · simp [contains]

theorem contains_finish :
    (c.finish f).contains d = true ↔ d = f.name ∨ c.contains d = true := by
  rw [finish]
  dsimp only
  split_ifs with h
  · constructor
    · exact Or.inr
    · rintro (rfl | hd)
      · exact h
      · exact hd
  · simp [contains]

theorem files_finish :
    (c.finish f).files = if c.contains f.name then c.files else c.files ++ [f] := by
  rw [finish]
  dsimp only
  change (if c.contains f.name then _ else _ : Closure).files = _
  split_ifs <;> rfl

end Closure

theorem outcome_resolveImport (source : DescriptorSource σ) (nested : SetResolver σ)
    (name : String) (c : Closure) (d : String) (s : σ) :
    outcome (resolveImport source nested name c d) s =
      if c.contains d then (.ok c, s)
      else if c.inProgress.contains d then (.error (.dependencyCycle d), s)
      else
        match (source.locate d).run s with
        | (false, s₁) => (.error (.unresolvedDependency d name), s₁)
        | (true, s₁) =>
            match outcome (source.compile [d]) s₁ with
            | (.error e, s₂) => (.error e, s₂)
            | (.ok set, s₂) =>
                match outcome (nested set c) s₂ with
                | (.error e, s₃) => (.error e, s₃)
                | (.ok c', s₃) => (.ok (c'.markVisited d), s₃) := by
  rw [resolveImport]
  split_ifs with hknown hopen
  · rfl
  · rfl
  · rw [outcome_bind, outcome_lift]
    rcases (source.locate d).run s with ⟨_ | _, s₁⟩
    · rfl
    · change outcome (source.compile [d] >>= _) s₁ = _
      rw [outcome_bind]
      dsimp only
      rcases outcome (source.compile [d]) s₁ with ⟨e | set, s₂⟩
      · rfl
      · dsimp only
        rw [outcome_bind]
        rcases outcome (nested set c) s₂ with ⟨e | c', s₃⟩ <;> rfl

theorem outcome_resolveFile (source : DescriptorSource σ) (nested : SetResolver σ) (c : Closure)
    (f : FileDescriptor) (s : σ) :
    outcome (resolveFile source nested c f) s =
      if c.contains f.name then (.ok c, s)
      else
        match outcome (f.dependencies.foldlM (resolveImport source nested f.name)
          (c.start f.name)) s with
        | (.ok c', s') => (.ok (c'.finish f), s')
        | (.error e, s') => (.error e, s') := by
  rw [resolveFile]
  split_ifs with h
  · rfl
  · rw [outcome_bind]
    rcases outcome (f.dependencies.foldlM (resolveImport source nested f.name)
      (c.start f.name)) s with ⟨e | c', s'⟩ <;> rfl

/-- One import of a file ends in one of the ways listed. -/
theorem importEnds {r : Except Failure Closure}
    (h : outcome (resolveImport source nested name c d) s = (r, s')) :
    ImportEnds source nested name c d s r s' := by
  rw [outcome_resolveImport] at h
  by_cases hd : c.contains d = true
  · rw [if_pos hd] at h
    cases h
    exact .contained hd
  rw [if_neg hd] at h
  by_cases hopen : c.inProgress.contains d = true
  · rw [if_pos hopen] at h
    cases h
    exact .cycle hopen
  rw [if_neg hopen] at h
  rcases hlocate : (source.locate d).run s with ⟨_ | _, s₁⟩
  · rw [hlocate] at h
    cases h
    exact .unresolved hlocate
  have hwanted : Wanted source c s d s₁ := ⟨by simpa using hd, by simpa using hopen, hlocate⟩
  rw [hlocate] at h
  dsimp only at h
  rcases hcompile : outcome (source.compile [d]) s₁ with ⟨e | set, s₂⟩
  · rw [hcompile] at h
    cases h
    exact .refused hwanted hcompile
  rw [hcompile] at h
  dsimp only at h
  rcases hset : outcome (nested set c) s₂ with ⟨e | c₁, s₃⟩
  · rw [hset] at h
    cases h
    exact .failed hwanted hcompile hset
  · rw [hset] at h
    cases h
    exact .brought hwanted hcompile hset

/-- One file of an answer ends in one of the ways listed. -/
theorem fileEnds {r : Except Failure Closure}
    (h : outcome (resolveFile source nested c f) s = (r, s')) :
    FileEnds source nested c f s r s' := by
  rw [outcome_resolveFile] at h
  by_cases hf : c.contains f.name = true
  · rw [if_pos hf] at h
    cases h
    exact .known hf
  rw [if_neg hf] at h
  have hunknown : c.contains f.name = false := by simpa using hf
  rcases hbelow : outcome (f.dependencies.foldlM (resolveImport source nested f.name)
    (c.start f.name)) s with ⟨e | c₁, s₁⟩
  · rw [hbelow] at h
    cases h
    exact .failed hunknown hbelow
  · rw [hbelow] at h
    cases h
    exact .expanded hunknown hbelow

/-- The imports of one file are walked when every nested set is. -/
theorem walk_of_imports
    (hnested : ∀ set c s c' s', outcome (nested set c) s = (.ok c', s') →
      ∃ left, Walk source left (.files set) c s c' s') (ds : List String)
    (h : outcome (ds.foldlM (resolveImport source nested name) c) s = (.ok c', s')) :
    ∃ left, Walk source left (.imports ds) c s c' s' := by
  induction ds generalizing c s with
  | nil =>
    cases h
    exact ⟨[], .satisfied _ _⟩
  | cons d ds ih =>
    rw [List.foldlM_cons, outcome_bind_eq_ok] at h
    obtain ⟨c₁, s₁, hstep, hds⟩ := h
    obtain ⟨left₂, hrest⟩ := ih hds
    cases importEnds hstep with
    | contained hd => exact ⟨left₂, .contained hd hrest⟩
    | brought hd hcompile hset =>
      obtain ⟨left₁, hwalk⟩ := hnested _ _ _ _ _ hset
      exact ⟨_, .bring hd.unknown hd.free hd.located hcompile hwalk hrest⟩

theorem walk_of_files
    (hnested : ∀ set c s c' s', outcome (nested set c) s = (.ok c', s') →
      ∃ left, Walk source left (.files set) c s c' s') (set : List FileDescriptor)
    (h : outcome (set.foldlM (resolveFile source nested) c) s = (.ok c', s')) :
    ∃ left, Walk source left (.files set) c s c' s' := by
  induction set generalizing c s with
  | nil =>
    cases h
    exact ⟨[], .done _ _⟩
  | cons f fs ih =>
    rw [List.foldlM_cons, outcome_bind_eq_ok] at h
    obtain ⟨c₁, s₁, hstep, hfs⟩ := h
    obtain ⟨left₂, hrest⟩ := ih hfs
    cases fileEnds hstep with
    | known hf => exact ⟨left₂, .known hf hrest⟩
    | expanded hf hbelow =>
      obtain ⟨left₁, hwalk⟩ := walk_of_imports hnested f.dependencies hbelow
      exact ⟨_, .expand hf hwalk hrest⟩

/-- Whatever the compiler answers, resolving that succeeds is a walk. -/
theorem walk_of_resolve (depth : ℕ)
    (h : outcome (resolve source depth set c) s = (.ok c', s')) :
    ∃ left, Walk source left (.files set) c s c' s' := by
  induction depth generalizing set c s c' s' with
  | zero => cases h
  | succ depth ih => exact walk_of_files (fun _ _ _ _ _ hnested => ih hnested) set h

/-- Whatever it is asked, a compiler keeps a property of its state. -/
structure DescriptorSource.Preserves (source : DescriptorSource σ) (P : σ → Prop) : Prop where
  locate : ∀ n s, P s → P ((source.locate n).run s).2
  compile : ∀ names s, P s → P (outcome (source.compile names) s).2

theorem Walk.preserves {P : σ → Prop} (hsource : source.Preserves P) {left : List String}
    {task : Task} (h : Walk source left task c s c' s') (hs : P s) : P s' := by
  induction h with
  | done c s => exact hs
  | known hf rest ih => exact ih hs
  | expand hf below rest ihbelow ihrest => exact ihrest (ihbelow hs)
  | satisfied c s => exact hs
  | contained hd rest ih => exact ih hs
  | @bring left₁ left₂ d ds c s s₁ set s₂ c₁ s₃ c' s' hd hfree hlocate hcompile nested rest
      ihnested ihrest =>
    have hlocated := hsource.locate d s hs
    rw [hlocate] at hlocated
    have hcompiled := hsource.compile [d] s₁ hlocated
    rw [hcompile] at hcompiled
    exact ihrest (ihnested hcompiled)

open CompilationRequest in
theorem CompilationRequest.outcome_build (source : DescriptorSource σ) (depth : ℕ)
    (roots : List String) (s : σ) :
    outcome (build source depth roots) s =
      if roots.isEmpty then (.error (.invalidRequest .noRoots), s)
      else
        match outcome (source.compile roots) s with
        | (.error e, s₁) => (.error e, s₁)
        | (.ok set, s₁) =>
            match outcome (resolve source depth set .empty) s₁ with
            | (.error e, s₂) => (.error e, s₂)
            | (.ok closure, s₂) =>
                match missingRoot? closure roots with
                | some root => (.error (.invalidRequest (.missingRoot root)), s₂)
                | none =>
                    match verifyOrder ⟨closure.files, roots⟩ with
                    | .error fault => (.error (.invalidRequest fault), s₂)
                    | .ok () => (.ok ⟨closure.files, roots⟩, s₂) := by
  rw [build]
  by_cases hnone : roots.isEmpty = true
  · rw [if_pos hnone, if_pos hnone]
    rfl
  rw [if_neg hnone, if_neg hnone]
  change outcome (source.compile roots >>= _) s = _
  rw [outcome_bind]
  rcases outcome (source.compile roots) s with ⟨e | set, s₁⟩
  · rfl
  dsimp only
  rw [outcome_bind]
  rcases outcome (resolve source depth set .empty) s₁ with ⟨e | closure, s₂⟩
  · rfl
  dsimp only
  cases missingRoot? closure roots with
  | some root => rfl
  | none =>
    dsimp only
    cases verifyOrder ⟨closure.files, roots⟩ <;> rfl

end ProtoForge.Resolution
