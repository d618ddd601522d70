import ProtoForge.Proofs.Resolution.Walk

/-!
# Nested compilations

While the answer for one import is resolved, further imports are compiled
alone, and their answers are resolved in turn. The names whose own answers are
under way form a stack. A walk in which no name is compiled while it is on the
stack ends by itself: among finitely many names the stack cannot grow forever.
-/
namespace ProtoForge.Resolution

variable {σ : Type}

/-- In a walk from a closure and a state, while the answers for the names `pending` are under way,
the name `n` comes to be compiled alone; at that moment the answers for `pending'` are under way. -/
inductive Asks (source : DescriptorSource σ) :
    List String → Task → Closure → σ → String → List String → Prop
  | here {pending d ds c s s₁} (hd : Wanted source c s d s₁) :
      Asks source pending (.imports (d :: ds)) c s d pending
  | nested {pending d ds c s s₁ set s₂ n pending'} (hd : Wanted source c s d s₁)
      (hcompile : outcome (source.compile [d]) s₁ = (.ok set, s₂))
      (inner : Asks source (d :: pending) (.files set) c s₂ n pending') :
      Asks source pending (.imports (d :: ds)) c s n pending'
  | contained {pending d ds c s n pending'} (hd : c.contains d = true)
      (rest : Asks source pending (.imports ds) c s n pending') :
      Asks source pending (.imports (d :: ds)) c s n pending'
  | brought {pending left d ds c s s₁ set s₂ c₁ s₃ n pending'} (hd : Wanted source c s d s₁)
      (hcompile : outcome (source.compile [d]) s₁ = (.ok set, s₂))
      (walk : Walk source left (.files set) c s₂ c₁ s₃)
      (rest : Asks source pending (.imports ds) (c₁.markVisited d) s₃ n pending') :
      Asks source pending (.imports (d :: ds)) c s n pending'
  | known {pending f fs c s n pending'} (hf : c.contains f.name = true)
      (rest : Asks source pending (.files fs) c s n pending') :
      Asks source pending (.files (f :: fs)) c s n pending'
  | inside {pending f fs c s n pending'} (hf : c.contains f.name = false)
      (inner : Asks source pending (.imports f.dependencies) (c.start f.name) s n pending') :
      Asks source pending (.files (f :: fs)) c s n pending'
  | expanded {pending left f fs c s c₁ s₁ n pending'} (hf : c.contains f.name = false)
      (walk : Walk source left (.imports f.dependencies) (c.start f.name) s c₁ s₁)
      (rest : Asks source pending (.files fs) (c₁.finish f) s₁ n pending') :
      Asks source pending (.files (f :: fs)) c s n pending'

/-- No name is compiled alone while its own answer is under way. -/
def Unentangled (source : DescriptorSource σ) (pending : List String) (task : Task) (c : Closure)
    (s : σ) : Prop :=
  ∀ n pending', Asks source pending task c s n pending' → n ∉ pending'

/-- Why resolving may fail: an import of a file that is being expanded, one that the compiler does
not know, or a failure of the compiler. -/
inductive Cause (source : DescriptorSource σ) : Failure → Prop
  | cycle (d : String) : Cause source (.dependencyCycle d)
  | unresolved (d name : String) : Cause source (.unresolvedDependency d name)
  | compiler {d : String} {s s' : σ} {e : Failure}
      (h : outcome (source.compile [d]) s = (.error e, s')) : Cause source e

/-- Two actions agree in a state, and what they fail for is a cause. -/
structure Settled {α : Type} (source : DescriptorSource σ) (x y : ResolveAction σ α) (s : σ) :
    Prop where
  same : outcome x s = outcome y s
  cause : ∀ e s', outcome x s = (.error e, s') → Cause source e

/-- Names whose answers are under way: none twice, and all of them known. -/
structure Stacked (known pending : List String) : Prop where
  distinct : pending.Nodup
  subset : pending ⊆ known

/-- The compiler has answers for known names only. -/
def AnswersFor (source : DescriptorSource σ) (known : List String) : Prop :=
  ∀ d s set s', outcome (source.compile [d]) s = (.ok set, s') → d ∈ known

variable {source : DescriptorSource σ} {c c₁ : Closure} {s s₁ s₂ s₃ : σ}
  {set : List FileDescriptor} {known pending ds : List String} {d n name : String} {depth : ℕ}

theorem Stacked.length_le (h : Stacked known pending) : pending.length ≤ known.length :=
  (h.distinct.subperm h.subset).length_le

theorem Stacked.push (h : Stacked known pending) (hd : d ∈ known) (hnew : d ∉ pending) :
    Stacked known (d :: pending) :=
  ⟨List.nodup_cons.mpr ⟨hnew, h.distinct⟩, List.cons_subset.mpr ⟨hd, h.subset⟩⟩

namespace Settled

variable {α β : Type} {x y : ResolveAction σ α} {f g : α → ResolveAction σ β}

theorem pure (a : α) (s : σ) : Settled source (Pure.pure a) (Pure.pure a) s := ⟨rfl, by simp⟩

theorem refl (h : ∀ e s', outcome x s = (.error e, s') → Cause source e) :
    Settled source x x s := ⟨rfl, h⟩

theorem bind (h : Settled source x y s)
    (hrest : ∀ a s', outcome x s = (.ok a, s') → Settled source (f a) (g a) s') :
    Settled source (x >>= f) (y >>= g) s := by
  constructor
  · rw [outcome_bind, outcome_bind, ← h.same]
    rcases hx : outcome x s with ⟨e | a, s'⟩
    · rfl
    · exact (hrest a s' hx).same
  · intro e s' he
    rcases outcome_bind_eq_error.mp he with hx | ⟨a, s'', hx, hfa⟩
    · exact h.cause e s' hx
    · exact (hrest a s'' hx).cause e s' hfa

end Settled

/-- What is resolved for one name at a smaller depth is settled when its stack leaves room. -/
def NestedSettled (source : DescriptorSource σ) (known : List String) (depth : ℕ) : Prop :=
  ∀ pending set c s, Stacked known pending → known.length < depth + pending.length →
    Unentangled source pending (.files set) c s →
    Settled source (resolve source depth set c) (resolve source (depth + 1) set c) s

/-- An import that was brought in was done before, or the answer for it was walked. -/
theorem eq_of_resolveImport
    (h : outcome (resolveImport source (resolve source depth) name c d) s = (.ok c₁, s₃)) :
    c.contains d = true ∧ c₁ = c ∧ s₃ = s ∨
      ∃ s₁ set s₂ c₂ left, Wanted source c s d s₁ ∧
        outcome (source.compile [d]) s₁ = (.ok set, s₂) ∧
        Walk source left (.files set) c s₂ c₂ s₃ ∧ c₁ = c₂.markVisited d := by
  cases importEnds h with
  | contained hd => exact Or.inl ⟨hd, rfl, rfl⟩
  | brought hd hcompile hset =>
    obtain ⟨left, hwalk⟩ := walk_of_resolve depth hset
    exact Or.inr ⟨_, _, _, _, left, hd, hcompile, hwalk, rfl⟩

/-- One import of a file is settled when the answer for it is. -/
theorem settled_import (hanswers : AnswersFor source known)
    (hnested : NestedSettled source known depth) (hstack : Stacked known pending)
    (hdepth : known.length < depth + 1 + pending.length)
    (h : Unentangled source pending (.imports (d :: ds)) c s) :
    Settled source (resolveImport source (resolve source depth) name c d)
      (resolveImport source (resolve source (depth + 1)) name c d) s := by
  rw [resolveImport, resolveImport]
  by_cases hd : c.contains d = true
  · rw [if_pos hd, if_pos hd]
    exact .pure c s
  rw [if_neg hd, if_neg hd]
  by_cases hopen : c.inProgress.contains d = true
  · rw [if_pos hopen, if_pos hopen]
    refine .refl fun e s' he => ?_
    cases he
    exact .cycle d
  rw [if_neg hopen, if_neg hopen]
  refine Settled.bind (.refl (by simp)) fun located s₁ hlocate => ?_
  rcases located with _ | _
  · refine .refl fun e s' he => ?_
    cases he
    exact .unresolved d name
  have hwanted : Wanted source c s d s₁ := by
    refine ⟨by simpa using hd, by simpa using hopen, ?_⟩
    rw [outcome_lift] at hlocate
    obtain ⟨htrue, rfl⟩ := Prod.mk.inj hlocate
    exact Prod.ext (Except.ok.inj htrue) rfl
  refine Settled.bind (.refl fun e s' he => .compiler he) fun set s₂ hcompile => ?_
  -- the name is not on the stack, so that the stack with it still has no name twice
  have hnew : d ∉ pending := h d pending (.here hwanted)
  refine Settled.bind (hnested (d :: pending) set c s₂
    (hstack.push (hanswers d s₁ set s₂ hcompile) hnew) ?_ ?_) fun c' s' _ => .pure _ s'
  · rw [List.length_cons]
    omega
  · exact fun n pending' hn => h n pending' (.nested hwanted hcompile hn)

/-- The imports of a file are settled when the answers for them are. -/
theorem settled_imports (hanswers : AnswersFor source known)
    (hnested : NestedSettled source known depth) (hstack : Stacked known pending)
    (hdepth : known.length < depth + 1 + pending.length) (ds : List String)
    (h : Unentangled source pending (.imports ds) c s) :
    Settled source (ds.foldlM (resolveImport source (resolve source depth) name) c)
      (ds.foldlM (resolveImport source (resolve source (depth + 1)) name) c) s := by
  induction ds generalizing c s with
  | nil => exact .pure c s
  | cons d ds ih =>
    rw [List.foldlM_cons, List.foldlM_cons]
    refine (settled_import hanswers hnested hstack hdepth h).bind fun c₁ s₃ hc₁ => ih ?_
    rcases eq_of_resolveImport hc₁ with
      ⟨hd, rfl, rfl⟩ | ⟨s₁, set, s₂, c₂, left, hwanted, hcompile, hwalk, rfl⟩
    · exact fun n pending' hn => h n pending' (.contained hd hn)
    · exact fun n pending' hn => h n pending' (.brought hwanted hcompile hwalk hn)

/-- The files of an answer are settled when the answers for their imports are. -/
theorem settled_files (hanswers : AnswersFor source known)
    (hnested : NestedSettled source known depth) (hstack : Stacked known pending)
    (hdepth : known.length < depth + 1 + pending.length) (set : List FileDescriptor)
    (h : Unentangled source pending (.files set) c s) :
    Settled source (set.foldlM (resolveFile source (resolve source depth)) c)
      (set.foldlM (resolveFile source (resolve source (depth + 1))) c) s := by
  induction set generalizing c s with
  | nil => exact .pure c s
  | cons f fs ih =>
    rw [List.foldlM_cons, List.foldlM_cons]
    by_cases hf : c.contains f.name = true
    · rw [resolveFile, resolveFile, if_pos hf, if_pos hf]
      refine Settled.bind (.pure c s) fun c₁ s₁ hc₁ => ih ?_
      cases hc₁
      exact fun n pending' hn => h n pending' (.known hf hn)
    have hunknown : c.contains f.name = false := by simpa using hf
    rw [resolveFile, resolveFile, if_neg hf, if_neg hf]
    have hinside : Unentangled source pending (.imports f.dependencies) (c.start f.name) s :=
      fun n pending' hn => h n pending' (.inside hunknown hn)
    refine Settled.bind ((settled_imports hanswers hnested hstack hdepth _ hinside).bind
      fun c₁ s₁ _ => .pure (c₁.finish f) s₁) fun c₂ s₂ hc₂ => ih ?_
    obtain ⟨c₁, s₁, hbelow, hfinish⟩ := outcome_bind_eq_ok.mp hc₂
    cases hfinish
    obtain ⟨left, hwalk⟩ := walk_of_imports (fun _ _ _ _ _ => walk_of_resolve depth) _ hbelow
    exact fun n pending' hn => h n pending' (.expanded hunknown hwalk hn)

/-- An answer is settled at any depth for which the stack leaves room. -/
theorem nestedSettled (hanswers : AnswersFor source known) (depth : ℕ) :
    NestedSettled source known depth := by
  induction depth with
  | zero =>
    intro pending set c s hstack hdepth
    have hlength := hstack.length_le
    omega
  | succ depth ih =>
    intro pending set c s hstack hdepth h
    rw [resolve, resolve]
    exact settled_files hanswers ih hstack hdepth set h

/-- From a depth for which the stack leaves room, all depths give the same. -/
theorem resolve_steady (hanswers : AnswersFor source known) (hstack : Stacked known pending)
    (h : Unentangled source pending (.files set) c s) {bound : ℕ} (hbound : known.length < bound)
    (hdepth : bound ≤ depth) :
    outcome (resolve source depth set c) s = outcome (resolve source bound set c) s := by
  induction depth, hdepth using Nat.le_induction with
  | base => rfl
  | succ depth hle ih =>
    rw [← ih]
    exact (nestedSettled hanswers depth pending set c s hstack (by omega) h).same.symm

end ProtoForge.Resolution
