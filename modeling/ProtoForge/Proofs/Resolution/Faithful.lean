import ProtoForge.Proofs.Resolution.Order
import ProtoForge.Proofs.Resolution.Roots
import ProtoForge.Proofs.Resolution.Termination

/-!
# Faithful compilers

A compiler is faithful if each of its answers has a file for every name that
was asked for. What else an answer has, and in which order, does not matter:
then the names that are done are the names of the emitted files, and each file
is emitted after its imports. A request that was resolved therefore passes all
checks, and a build can only fail for an import or for the compiler.
-/
namespace ProtoForge.Resolution

variable {σ : Type}

/-- Every answer has a file for each name that was asked for, perhaps among others. -/
def DescriptorSource.IsFaithful (source : DescriptorSource σ) : Prop :=
  ∀ names s set s', outcome (source.compile names) s = (.ok set, s') →
    ∀ n ∈ names, ∃ f ∈ set, f.name = n

/-- The states to which questions to a compiler lead from a state. -/
inductive DescriptorSource.Asked (source : DescriptorSource σ) (s : σ) : σ → Prop
  | start : Asked source s s
  | locate {t} (h : Asked source s t) (n : String) : Asked source s ((source.locate n).run t).2
  | compile {t} (h : Asked source s t) (names : List String) :
      Asked source s (outcome (source.compile names) t).2

/-- Every name that is done is that of an emitted file, and all files come after their imports. -/
structure Closure.IsOrdered (c : Closure) : Prop where
  solid : ∀ n, ¬ c.IsHollow n
  order : ImportsFirst [] c.files

/-- Why a walk fails: an import that is being expanded or unknown to the compiler, a failure of the
compiler when it is asked in the course of the walk, or answers that nest too deep. -/
inductive Fault (source : DescriptorSource σ) (pending : List String) (task : Task) (c : Closure)
    (s : σ) : (depth : ℕ) → Failure → Prop
  | cycle {depth} (d : String) : Fault source pending task c s depth (.dependencyCycle d)
  | unresolved {depth} (d name : String) :
      Fault source pending task c s depth (.unresolvedDependency d name)
  | compiler {depth d t t' e} (ht : source.Asked s t)
      (h : outcome (source.compile [d]) t = (.error e, t')) : Fault source pending task c s depth e
  | deep {depth n pending'} (h : Asks source pending task c s n pending')
      (hlength : pending.length + depth = pending'.length + 1) :
      Fault source pending task c s depth (.invalidRequest .tooDeep)
  | spent : Fault source pending task c s 0 (.invalidRequest .tooDeep)

variable {source : DescriptorSource σ} {c c' c₁ : Closure} {s s' t : σ}
  {set : List FileDescriptor} {f : FileDescriptor} {left pending pending₁ roots ds : List String}
  {task task₁ : Task} {d n name : String} {e : Failure} {depth depth₁ : ℕ}

namespace DescriptorSource.Asked

theorem preserves (source : DescriptorSource σ) (s : σ) : source.Preserves (source.Asked s) :=
  ⟨fun n _ h => h.locate n, fun names _ h => h.compile names⟩

theorem trans (h : source.Asked s t) (h' : source.Asked t s') : source.Asked s s' := by
  induction h' with
  | start => exact h
  | locate _ n ih => exact ih.locate n
  | compile _ names ih => exact ih.compile names

theorem of_wanted (h : Wanted source c s d t) : source.Asked s t := by
  have hlocate : source.Asked s ((source.locate d).run s).2 := .locate .start d
  rwa [h.located] at hlocate

theorem of_compile {names : List String} {r : Except Failure (List FileDescriptor)}
    (h : outcome (source.compile names) s = (r, t)) : source.Asked s t := by
  have hcompile : source.Asked s (outcome (source.compile names) s).2 := .compile .start names
  rwa [h] at hcompile

theorem of_walk (h : Walk source left task c s c' t) : source.Asked s t :=
  h.preserves (preserves source s) .start

end DescriptorSource.Asked

namespace Closure

theorem isOrdered_empty : empty.IsOrdered :=
  ⟨fun n h => by simp [IsHollow, contains, empty] at h, trivial⟩

theorem IsOrdered.mem_names (h : c.IsOrdered) (hn : c.contains n = true) : n ∈ c.names := by
  by_contra hnames
  exact h.solid n ⟨hn, hnames⟩

theorem IsOrdered.start (h : c.IsOrdered) (f : FileDescriptor) : (c.start f.name).IsOrdered := by
  refine ⟨fun n hn => h.solid n (isHollow_start.mp hn), ?_⟩
  rw [files_start]
  exact h.order

/-- Emitting a file whose imports are done: each of them is the name of an emitted file. -/
theorem IsOrdered.finish (h : c.IsOrdered) (hf : ∀ d ∈ f.dependencies, c.contains d = true) :
    (c.finish f).IsOrdered := by
  refine ⟨fun n hn => h.solid n (isHollow_finish.mp hn), ?_⟩
  rw [files_finish]
  split_ifs
  · exact h.order
  · rw [importsFirst_append, List.nil_append]
    exact ⟨h.order, fun d hd => h.mem_names (hf d hd), trivial⟩

end Closure

/-- With a faithful compiler no import is closed without a file, and a file that is emitted comes
after its imports, even if it is one that an inner answer brings under the name of an open file. -/
theorem Walk.isOrdered (hsource : source.IsFaithful) (h : Walk source left task c s c' s')
    (hc : c.IsClosed) (hordered : c.IsOrdered) : c'.IsOrdered := by
  induction h with
  | done c s => exact hordered
  | known hf rest ih => exact ih hc hordered
  | @expand left₁ left₂ f fs c s c₁ s₁ c' s' hf below rest ihbelow ihrest =>
    obtain ⟨hclosed₁, -, himports⟩ := below.isClosed (hc.start f.name)
    have hordered₁ := ihbelow (hc.start f.name) (hordered.start f)
    exact ihrest (hclosed₁.finish himports) (hordered₁.finish himports)
  | satisfied c s => exact hordered
  | contained hd rest ih => exact ih hc hordered
  | @bring left₁ left₂ d ds c s s₁ set s₂ c₁ s₃ c' s' hd hfree hlocate hcompile nested rest
      ihnested ihrest =>
    obtain ⟨hclosed₁, -, hcovered⟩ := nested.isClosed hc
    -- the answer has a file for the import, so that closing the import changes nothing
    obtain ⟨f, hf, hname⟩ := hsource [d] s₁ set s₂ hcompile d List.mem_cons_self
    have hmark : c₁.markVisited d = c₁ := by
      rw [Closure.markVisited, if_pos (hname ▸ hcovered f hf)]
    rw [hmark] at ihrest
    exact ihrest hclosed₁ (ihnested hc hordered)

/-- What fails later in a walk fails the walk. -/
theorem Fault.lift (h : Fault source pending₁ task₁ c₁ t (depth₁ + 1) e) (ht : source.Asked s t)
    (hlength : pending₁.length + (depth₁ + 1) = pending.length + depth)
    (hasks : ∀ n pending', Asks source pending₁ task₁ c₁ t n pending' →
      Asks source pending task c s n pending') : Fault source pending task c s depth e := by
  cases h with
  | cycle d => exact .cycle d
  | unresolved d name => exact .unresolved d name
  | compiler hasked hfail => exact .compiler (ht.trans hasked) hfail
  | deep hdeep hdepth => exact .deep (hasks _ _ hdeep) (hlength ▸ hdepth)

/-- Why resolving an answer fails at some depth, whatever answers are under way. -/
def FaultyAt (source : DescriptorSource σ) (depth : ℕ) : Prop :=
  ∀ pending set c s e s', outcome (resolve source depth set c) s = (.error e, s') →
    Fault source pending (.files set) c s depth e

/-- An answer that fails while it is resolved one level deeper. -/
theorem FaultyAt.nested (hfaulty : FaultyAt source depth) (pending : List String)
    {s₁ s₂ s₃ : σ} (hd : Wanted source c s d s₁)
    (hcompile : outcome (source.compile [d]) s₁ = (.ok set, s₂))
    (h : outcome (resolve source depth set c) s₂ = (.error e, s₃)) :
    Fault source pending (.imports (d :: ds)) c s (depth + 1) e := by
  have hfault := hfaulty (d :: pending) set c s₂ e s₃ h
  have hasked : source.Asked s s₂ := (DescriptorSource.Asked.of_wanted hd).trans (.of_compile hcompile)
  cases depth with
  | zero =>
    cases h
    exact .deep (.here hd) rfl
  | succ depth =>
    refine hfault.lift hasked ?_ fun n pending' => .nested hd hcompile
    rw [List.length_cons]
    omega

/-- The imports of a file fail when one of them does. -/
theorem fault_of_imports (hfaulty : FaultyAt source depth) (pending ds : List String)
    (h : outcome (ds.foldlM (resolveImport source (resolve source depth) name) c) s =
      (.error e, s')) : Fault source pending (.imports ds) c s (depth + 1) e := by
  induction ds generalizing c s with
  | nil => cases h
  | cons d ds ih =>
    rw [List.foldlM_cons] at h
    rcases outcome_bind_eq_error.mp h with hstep | ⟨c₁, s₁, hstep, hds⟩
    · cases importEnds hstep with
      | cycle hopen => exact .cycle d
      | unresolved hlocate => exact .unresolved d name
      | refused hd hcompile => exact .compiler (.of_wanted hd) hcompile
      | failed hd hcompile hset => exact hfaulty.nested pending hd hcompile hset
    · have hrest := ih hds
      rcases eq_of_resolveImport hstep with
        ⟨hd, rfl, rfl⟩ | ⟨s₂, set, s₃, c₂, left, hwanted, hcompile, hwalk, rfl⟩
      · exact hrest.lift .start rfl fun n pending' => .contained hd
      · have hasked : source.Asked s s₁ :=
          ((DescriptorSource.Asked.of_wanted hwanted).trans (.of_compile hcompile)).trans
            (.of_walk hwalk)
        exact hrest.lift hasked rfl fun n pending' => .brought hwanted hcompile hwalk

/-- The files of an answer fail when the imports of one of them do. -/
theorem fault_of_files (hfaulty : FaultyAt source depth) (pending : List String)
    (set : List FileDescriptor)
    (h : outcome (set.foldlM (resolveFile source (resolve source depth)) c) s = (.error e, s')) :
    Fault source pending (.files set) c s (depth + 1) e := by
  induction set generalizing c s with
  | nil => cases h
  | cons f fs ih =>
    rw [List.foldlM_cons] at h
    rcases outcome_bind_eq_error.mp h with hstep | ⟨c₁, s₁, hstep, hfs⟩
    · cases fileEnds hstep with
      | failed hf hbelow =>
        exact (fault_of_imports hfaulty pending f.dependencies hbelow).lift .start rfl
          fun n pending' => .inside hf
    · have hrest := ih hfs
      cases fileEnds hstep with
      | known hf => exact hrest.lift .start rfl fun n pending' => .known hf
      | expanded hf hbelow =>
        obtain ⟨left, hwalk⟩ := walk_of_imports (fun _ _ _ _ _ => walk_of_resolve depth) _ hbelow
        exact hrest.lift (.of_walk hwalk) rfl fun n pending' => .expanded hf hwalk

/-- Whatever the compiler answers, resolving fails for one of these reasons at every depth. -/
theorem faultyAt (source : DescriptorSource σ) (depth : ℕ) : FaultyAt source depth := by
  induction depth with
  | zero =>
    intro pending set c s e s' h
    cases h
    exact .spent
  | succ depth ih =>
    intro pending set c s e s' h
    rw [resolve] at h
    exact fault_of_files ih pending set h

/-- A name among those that a table answered for has an answer of its own among the answers. -/
theorem exists_answer {answer : String → Except Failure (List FileDescriptor)} {names : List String}
    {sets : List (List FileDescriptor)} (h : names.mapM answer = .ok sets) (hn : n ∈ names) :
    ∃ set ∈ sets, answer n = .ok set := by
  induction names generalizing sets with
  | nil => simp at hn
  | cons m names ih =>
    rw [List.mapM_cons] at h
    rcases hset : answer m with e | set
    · rw [hset] at h
      cases h
    rcases hrest : names.mapM answer with e | rest
    · rw [hset, hrest] at h
      cases h
    rw [hset, hrest] at h
    obtain rfl : set :: rest = sets := Except.ok.inj h
    rcases List.mem_cons.mp hn with rfl | hn
    · exact ⟨set, List.mem_cons_self, hset⟩
    · obtain ⟨answered, hmem, hanswer⟩ := ih hrest hn
      exact ⟨answered, List.mem_cons_of_mem set hmem, hanswer⟩

/-- A compiler that answers from a table is faithful if the answer for each name is. -/
theorem isFaithful_answering {knows : String → Bool} {t : AnswerTable} {unknown : String → Failure}
    (h : ∀ n set, t.answer unknown n = .ok set → ∃ f ∈ set, f.name = n) :
    (answeringSource knows t unknown).IsFaithful := by
  intro names s set s' hset n hn
  rw [outcome_compile_answering] at hset
  obtain ⟨hset, -⟩ := Prod.mk.inj hset
  rcases hsets : names.mapM (t.answer unknown) with e | sets
  · rw [hsets] at hset
    cases hset
  rw [hsets] at hset
  obtain rfl : sets.flatten = set := Except.ok.inj hset
  obtain ⟨answer, hmem, hanswer⟩ := exists_answer hsets hn
  obtain ⟨f, hf, hname⟩ := h n answer hanswer
  exact ⟨f, List.mem_flatten.mpr ⟨answer, hmem, hf⟩, hname⟩

namespace CompilationRequest

/-- What a faithful compiler led to passes every check of a request. -/
theorem checks_of_resolve (hsource : source.IsFaithful) (hroots : ∀ r ∈ roots, ∃ f ∈ set, f.name = r)
    (h : outcome (resolve source depth set .empty) s = (.ok c, s')) :
    missingRoot? c roots = none ∧ verifyOrder ⟨c.files, roots⟩ = .ok () := by
  obtain ⟨left, hwalk⟩ := walk_of_resolve depth h
  obtain ⟨hclosed, -, hcovered⟩ := hwalk.isClosed Closure.isClosed_empty
  have hordered := hwalk.isOrdered hsource Closure.isClosed_empty Closure.isOrdered_empty
  constructor
  · apply List.find?_eq_none.mpr
    intro r hr
    obtain ⟨f, hf, rfl⟩ := hroots r hr
    simpa using hcovered f hf
  · exact verifyOrder_eq_ok hordered.order hclosed.distinct

/-- A build with a faithful compiler fails when the compiler refuses the roots, or for a fault of
the walk; a closure that was resolved passes all checks and is the request. -/
theorem build_of_faithful (hsource : source.IsFaithful) (hroots : roots ≠ []) (depth : ℕ) (s : σ) :
    (∃ e s', outcome (source.compile roots) s = (.error e, s') ∧
        outcome (build source depth roots) s = (.error e, s')) ∨
      ∃ set s₁, outcome (source.compile roots) s = (.ok set, s₁) ∧
        ((∃ e s', outcome (resolve source depth set .empty) s₁ = (.error e, s') ∧
            Fault source [] (.files set) .empty s₁ depth e ∧
            outcome (build source depth roots) s = (.error e, s')) ∨
          ∃ closure s', outcome (resolve source depth set .empty) s₁ = (.ok closure, s') ∧
            missingRoot? closure roots = none ∧ verifyOrder ⟨closure.files, roots⟩ = .ok () ∧
            outcome (build source depth roots) s = (.ok ⟨closure.files, roots⟩, s')) := by
  rw [outcome_build, if_neg (by simpa using hroots)]
  rcases hcompile : outcome (source.compile roots) s with ⟨e | set, s₁⟩
  · exact Or.inl ⟨e, s₁, rfl, rfl⟩
  refine Or.inr ⟨set, s₁, rfl, ?_⟩
  rcases hresolve : outcome (resolve source depth set .empty) s₁ with ⟨e | closure, s'⟩
  · have hfault := faultyAt source depth [] set .empty s₁ e s' hresolve
    dsimp only
    rw [hresolve]
    exact Or.inl ⟨e, s', rfl, hfault, rfl⟩
  · obtain ⟨hmissing, hverify⟩ :=
      checks_of_resolve hsource (hsource roots s set s₁ hcompile) hresolve
    refine Or.inr ⟨closure, s', rfl, hmissing, hverify, ?_⟩
    dsimp only
    rw [hresolve]
    dsimp only
    rw [hmissing]
    dsimp only
    rw [hverify]

/-- Answers with further files, with two files of one name, and with files that are named like one
that is being expanded. -/
def crowded : AnswerTable :=
  [("a", .ok [.ofImports "x" [], .ofImports "a" ["c", "b"], .ofImports "a" []]),
    ("b", .ok [.ofImports "c" [], .ofImports "b" ["c"]]),
    ("c", .ok [.ofImports "a" [], .ofImports "c" ["b"]])]

/-- The compiler that answers from `crowded` and knows its names. -/
def crowdedSource : DescriptorSource Unit :=
  answeringSource (fun n => (crowded.lookup n).isSome) crowded fun _ => .io "no such file"

theorem isFaithful_crowdedSource : crowdedSource.IsFaithful := by
  apply isFaithful_answering
  intro n set hset
  have hkey := mem_keys_of_answer hset
  simp only [crowded, List.map_cons, List.map_nil, List.mem_cons, List.not_mem_nil,
    or_false] at hkey
  rcases hkey with rfl | rfl | rfl <;> obtain rfl := Except.ok.inj hset
  · exact ⟨.ofImports "a" [], by simp, rfl⟩
  · exact ⟨.ofImports "b" ["c"], by simp, rfl⟩
  · exact ⟨.ofImports "c" ["b"], by simp, rfl⟩

/-- The request has the inner files of the names `a` and `c`, and is in order all the same. -/
theorem crowded_request :
    crowdedSource.IsFaithful ∧ ["a"] ≠ [] ∧
      ∃ closure, outcome (build crowdedSource 3 ["a"]) () = (.ok ⟨closure.files, ["a"]⟩, ()) ∧
        closure.files = [.ofImports "x" [], .ofImports "a" [], .ofImports "c" [],
          .ofImports "b" ["c"]] ∧
        missingRoot? closure ["a"] = none ∧ verifyOrder ⟨closure.files, ["a"]⟩ = .ok () := by
  refine ⟨isFaithful_crowdedSource, by simp, ?_⟩
  have hbuilt : outcome (build crowdedSource 3 ["a"]) () = (.ok ⟨[.ofImports "x" [],
      .ofImports "a" [], .ofImports "c" [], .ofImports "b" ["c"]], ["a"]⟩, ()) := rfl
  rcases build_of_faithful isFaithful_crowdedSource (List.cons_ne_nil "a" []) 3 () with
    ⟨e, s', -, he⟩ | ⟨set, s₁, -, ⟨e, s', -, -, he⟩ | ⟨closure, s', -, hmissing, hverify, h⟩⟩
  · cases hbuilt.symm.trans he
  · cases hbuilt.symm.trans he
  · have hsame := hbuilt.symm.trans h
    simp only [Prod.mk.injEq, Except.ok.injEq, CompilationRequest.mk.injEq] at hsame
    exact ⟨closure, h, hsame.1.1.symm, hmissing, hverify⟩

end CompilationRequest

end ProtoForge.Resolution
