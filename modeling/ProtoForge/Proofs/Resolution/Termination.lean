import ProtoForge.Proofs.Resolution.Nesting
import Mathlib.Logic.Relation

/-!
# Termination of builds

A compiler without a state answers each name with any files, or fails. The
guard against cycles knows the files that are being expanded and not the names
that were asked for, so a build ends as long as no answer, before it comes to
the file of its own name, imports what leads back to that name. Without this
condition it may go on forever.
-/
namespace ProtoForge.Resolution

/-- The answers of a compiler for single names. -/
abbrev AnswerTable := List (String × Except Failure (List FileDescriptor))

/-- What a table answers for a name. -/
def AnswerTable.answer (t : AnswerTable) (unknown : String → Failure) (n : String) :
    Except Failure (List FileDescriptor) :=
  (t.lookup n).getD (.error (unknown n))

/-- A compiler without a state that answers from a table, for several names one after the other. -/
def answeringSource (knows : String → Bool) (t : AnswerTable) (unknown : String → Failure) :
    DescriptorSource Unit where
  locate n := pure (knows n)
  compile names := ExceptT.mk (pure ((names.mapM (t.answer unknown)).map List.flatten))

/-- The answer for one name has a file that imports another one. -/
def Leads (answer : String → Except Failure (List FileDescriptor)) (a b : String) : Prop :=
  ∃ set, answer a = .ok set ∧ ∃ f ∈ set, b ∈ f.dependencies

/-- No file that comes before the one of the name itself imports what leads to the name. -/
def Forthright (answer : String → Except Failure (List FileDescriptor)) (n : String)
    (set : List FileDescriptor) : Prop :=
  ∀ f ∈ set.takeWhile (·.name ≠ n), ∀ d ∈ f.dependencies,
    ¬ Relation.ReflTransGen (Leads answer) d n

/-- Nothing that a task asks for on its way to the file of a name leads to the name. -/
def Guarded (answer : String → Except Failure (List FileDescriptor)) (n : String) : Task → Prop
  | .files set => Forthright answer n set
  | .imports ds => ∀ d ∈ ds, ¬ Relation.ReflTransGen (Leads answer) d n

/-- A name is done or being expanded. -/
def Closure.Knows (c : Closure) (n : String) : Prop := c.contains n = true ∨ n ∈ c.inProgress

/-- The names whose own compilation is under way when some roots are compiled together: a root
that is alone. -/
def lone : List String → List String
  | [n] => [n]
  | _ => []

/-- A build ends by itself: no name is compiled alone while its own answer is under way, the walk
fails for a cause of its own only, and no depth beyond the bound makes a difference. -/
structure Ends {σ : Type} (source : DescriptorSource σ) (bound : ℕ) (roots : List String) (s : σ) :
    Prop where
  unentangled : ∀ set s', outcome (source.compile roots) s = (.ok set, s') →
    Unentangled source (lone roots) (.files set) .empty s'
  cause : ∀ depth, bound < depth → ∀ set s' e s'',
    outcome (source.compile roots) s = (.ok set, s') →
    outcome (resolve source depth set .empty) s' = (.error e, s'') → Cause source e
  steady : ∀ depth, bound < depth →
    outcome (CompilationRequest.build source depth roots) s =
      outcome (CompilationRequest.build source (bound + 1) roots) s

variable {σ : Type} {source : DescriptorSource σ} {c c' : Closure} {s s' : σ} {task : Task}
  {answer : String → Except Failure (List FileDescriptor)} {left pending pending' ds : List String}
  {set : List FileDescriptor} {f : FileDescriptor} {fs : List FileDescriptor} {d m n : String}

namespace Closure

theorem Knows.start (h : c.Knows n) (m : String) : (c.start m).Knows n := by
  rcases h with h | h
  · exact Or.inl (by rwa [contains_start])
  · refine Or.inr ?_
    rw [Closure.start]
    split_ifs
    · exact h
    · exact List.mem_cons_of_mem m h

theorem knows_start (c : Closure) (n : String) : (c.start n).Knows n := by
  refine Or.inr ?_
  rw [Closure.start]
  split_ifs with h
  · simpa using h
  · exact List.mem_cons_self

theorem Knows.markVisited (h : c.Knows n) (m : String) : (c.markVisited m).Knows n := by
  rcases h with h | h
  · exact Or.inl (contains_markVisited.mpr (Or.inr h))
  · refine Or.inr ?_
    rw [Closure.markVisited]
    split_ifs <;> exact h

/-- A file that is finished is no longer being expanded, but done. -/
theorem Knows.finish (h : c.Knows n) (f : FileDescriptor) : (c.finish f).Knows n := by
  by_cases hn : n = f.name
  · exact Or.inl (contains_finish.mpr (Or.inl hn))
  rcases h with h | h
  · exact Or.inl (contains_finish.mpr (Or.inr h))
  · refine Or.inr ?_
    rw [Closure.finish]
    dsimp only
    split_ifs <;> simpa [hn] using h

end Closure

/-- A walk forgets no name. -/
theorem Walk.knows (h : Walk source left task c s c' s') (hn : c.Knows n) : c'.Knows n := by
  induction h with
  | done c s => exact hn
  | known hf rest ih => exact ih hn
  | expand hf below rest ihbelow ihrest => exact ihrest ((ihbelow (hn.start _)).finish _)
  | satisfied c s => exact hn
  | contained hd rest ih => exact ih hn
  | bring hd hfree hlocate hcompile nested rest ihnested ihrest =>
    exact ihrest ((ihnested hn).markVisited _)

/-- A file of another name leaves the rest of an answer to be passed. -/
theorem Forthright.tail (h : Forthright answer n (f :: fs)) (hf : f.name ≠ n) :
    Forthright answer n fs := by
  rw [Forthright, List.takeWhile_cons_of_pos (by simpa using hf)] at h
  exact (List.forall_mem_cons.mp h).2

theorem Forthright.head (h : Forthright answer n (f :: fs)) (hf : f.name ≠ n) :
    Guarded answer n (.imports f.dependencies) := by
  rw [Forthright, List.takeWhile_cons_of_pos (by simpa using hf)] at h
  exact (List.forall_mem_cons.mp h).1

/-- The answer for a name that does not lead to another one does not ask for what does. -/
theorem forthright_of_not_leads (hset : answer d = .ok set)
    (hd : ¬ Relation.ReflTransGen (Leads answer) d n) : Forthright answer n set := by
  intro f hf b hb hbn
  exact hd (.head ⟨set, hset, f, (List.takeWhile_sublist _).subset hf, hb⟩ hbn)

/-- While each name on the stack is known or cannot be led to, none of them is compiled alone. -/
theorem Asks.not_mem
    (hanswer : ∀ d s set s', outcome (source.compile [d]) s = (.ok set, s') → answer d = .ok set)
    (hforth : ∀ d set, answer d = .ok set → Forthright answer d set)
    (h : Asks source pending task c s m pending')
    (hpending : ∀ n ∈ pending, c.Knows n ∨ Guarded answer n task) : m ∉ pending' := by
  induction h with
  | @here pending d ds c s s₁ hd =>
    intro hmem
    rcases hpending d hmem with (hknown | hopen) | hguard
    · simp [hd.unknown] at hknown
    · have hfree : d ∉ c.inProgress := by simpa using hd.free
      exact hfree hopen
    · exact hguard d List.mem_cons_self .refl
  | @nested pending d ds c s s₁ set s₂ n pending' hd hcompile inner ih =>
    have hset := hanswer _ _ _ _ hcompile
    refine ih (List.forall_mem_cons.mpr ⟨Or.inr (hforth d set hset), fun n hn => ?_⟩)
    exact (hpending n hn).imp_right fun hguard =>
      forthright_of_not_leads hset (hguard d List.mem_cons_self)
  | contained hd rest ih =>
    exact ih fun n hn => (hpending n hn).imp_right fun hguard d hd =>
      hguard d (List.mem_cons_of_mem _ hd)
  | brought hd hcompile walk rest ih =>
    exact ih fun n hn => (hpending n hn).imp (fun hknown => (walk.knows hknown).markVisited _)
      fun hguard d hd => hguard d (List.mem_cons_of_mem _ hd)
  | @known pending f fs c s m pending' hf rest ih =>
    refine ih fun n hn => ?_
    by_cases hname : f.name = n
    · exact Or.inl (Or.inl (hname ▸ hf))
    · exact (hpending n hn).imp_right fun hguard => hguard.tail hname
  | @inside pending f fs c s m pending' hf inner ih =>
    refine ih fun n hn => ?_
    by_cases hname : f.name = n
    · exact Or.inl (hname ▸ c.knows_start f.name)
    · exact (hpending n hn).imp (·.start f.name) fun hguard => hguard.head hname
  | @expanded pending left f fs c s c₁ s₁ m pending' hf walk rest ih =>
    refine ih fun n hn => ?_
    by_cases hname : f.name = n
    · exact Or.inl (Or.inl (Closure.contains_finish.mpr (Or.inl hname.symm)))
    · exact (hpending n hn).imp (fun hknown => (walk.knows (hknown.start _)).finish f)
        fun hguard => hguard.tail hname

section Tables

variable {knows : String → Bool} {t : AnswerTable} {unknown : String → Failure}
  {roots : List String}

theorem outcome_compile_answering (names : List String) :
    outcome ((answeringSource knows t unknown).compile names) () =
      ((names.mapM (t.answer unknown)).map List.flatten, ()) := rfl

theorem answer_of_compile
    (h : outcome ((answeringSource knows t unknown).compile [n]) () = (.ok set, ())) :
    t.answer unknown n = .ok set := by
  rw [outcome_compile_answering] at h
  cases hn : t.answer unknown n with
  | error e => simp [hn, Except.map] at h
  | ok set' => simpa [hn, Except.map] using h

theorem mem_keys_of_answer (h : t.answer unknown n = .ok set) : n ∈ t.map Prod.fst := by
  rw [AnswerTable.answer] at h
  cases hn : t.lookup n with
  | none => simp [hn] at h
  | some x =>
    obtain ⟨before, after, rfl, -⟩ := List.lookup_eq_some_iff.mp hn
    simp

theorem answersFor_keys :
    AnswersFor (answeringSource knows t unknown) (t.map Prod.fst) :=
  fun _ _ _ _ h => mem_keys_of_answer (answer_of_compile h)

/-- What came for roots that are compiled together is the answer for a root that is alone. -/
theorem answer_of_mem_lone {s' : Unit}
    (hset : outcome ((answeringSource knows t unknown).compile roots) () = (.ok set, s'))
    (hn : n ∈ lone roots) : t.answer unknown n = .ok set := by
  rcases roots with _ | ⟨r, _ | ⟨r', rs⟩⟩
  · simp [lone] at hn
  · obtain rfl : n = r := by simpa [lone] using hn
    exact answer_of_compile hset
  · simp [lone] at hn

theorem stacked_lone {s' : Unit}
    (hset : outcome ((answeringSource knows t unknown).compile roots) () = (.ok set, s')) :
    Stacked (t.map Prod.fst) (lone roots) := by
  refine ⟨?_, fun n hn => mem_keys_of_answer (answer_of_mem_lone hset hn)⟩
  rcases roots with _ | ⟨r, _ | ⟨r', rs⟩⟩ <;> simp [lone]

/-- A build from a table ends if no name is compiled alone while its own answer is under way. -/
theorem ends_of_unentangled
    (h : ∀ set s', outcome ((answeringSource knows t unknown).compile roots) () = (.ok set, s') →
      Unentangled (answeringSource knows t unknown) (lone roots) (.files set) .empty s') :
    Ends (answeringSource knows t unknown) t.length roots () := by
  have hlength : (t.map Prod.fst).length = t.length := List.length_map _
  constructor
  · exact h
  · intro depth hdepth set s' e s'' hset he
    exact (nestedSettled answersFor_keys depth _ set .empty s' (stacked_lone hset) (by omega)
      (h set s' hset)).cause e s'' he
  · intro depth hdepth
    rw [CompilationRequest.outcome_build, CompilationRequest.outcome_build]
    rcases hset : outcome ((answeringSource knows t unknown).compile roots) () with ⟨e | set, s'⟩
    · rfl
    · dsimp only
      rw [resolve_steady answersFor_keys (stacked_lone hset) (h set s' hset) (by omega) hdepth]

/-- If no answer of a table leads back to its own name before it comes to the file of that name,
then every build from the table ends. -/
theorem build_ends (knows : String → Bool) (t : AnswerTable) (unknown : String → Failure)
    (roots : List String)
    (hforth : ∀ n set, t.answer unknown n = .ok set → Forthright (t.answer unknown) n set) :
    Ends (answeringSource knows t unknown) t.length roots () := by
  refine ends_of_unentangled fun set s' hset n pending' hasks => ?_
  refine hasks.not_mem (fun d s set s' => answer_of_compile) hforth fun m hm => Or.inr ?_
  exact hforth m set (answer_of_mem_lone hset hm)

end Tables

/-- Two files that import each other; the answer for the first brings a further file before it. -/
def mutualImports : AnswerTable :=
  [("a", .ok [.ofImports "c" ["d"], .ofImports "a" ["b"]]), ("b", .ok [.ofImports "b" ["c", "a"]]),
    ("d", .ok [.ofImports "d" []])]

/-- The compiler that answers from `mutualImports` and knows its names. -/
def mutualSource : DescriptorSource Unit :=
  answeringSource (fun n => (mutualImports.lookup n).isSome) mutualImports
    fun _ => .io "no such file"

theorem mutual_imports_end :
    (∀ n set, mutualImports.answer (fun _ => .io "no such file") n = .ok set →
        Forthright (mutualImports.answer fun _ => .io "no such file") n set) ∧
      Ends mutualSource 3 ["a"] () ∧
      ∀ depth, 3 < depth → outcome (CompilationRequest.build mutualSource depth ["a"]) () =
        (.error (.dependencyCycle "a"), ()) := by
  have hforth : ∀ n set, mutualImports.answer (fun _ => .io "no such file") n = .ok set →
      Forthright (mutualImports.answer fun _ => .io "no such file") n set := by
    have hd : ¬ Relation.ReflTransGen
        (Leads (mutualImports.answer fun _ => .io "no such file")) "d" "a" := by
      intro h
      rcases h.cases_head with h | ⟨b, ⟨set, hset, f, hf, hb⟩, -⟩
      · simp at h
      · obtain rfl : [.ofImports "d" []] = set := Except.ok.inj hset
        obtain rfl := List.mem_singleton.mp hf
        simp at hb
    intro n set hset
    have hkey := mem_keys_of_answer hset
    simp only [mutualImports, List.map_cons, List.map_nil, List.mem_cons, List.not_mem_nil,
      or_false] at hkey
    rcases hkey with rfl | rfl | rfl <;> obtain rfl := Except.ok.inj hset
    · simpa [Forthright, List.takeWhile] using hd
    · simp [Forthright, List.takeWhile]
    · simp [Forthright, List.takeWhile]
  have hends : Ends mutualSource 3 ["a"] () :=
    build_ends (fun n => (mutualImports.lookup n).isSome) mutualImports
      (fun _ => .io "no such file") ["a"] hforth
  refine ⟨hforth, hends, fun depth hdepth => ?_⟩
  rw [hends.steady depth hdepth]
  rfl

/-- The answer for `r` is a file of another name that imports `r`. -/
def detour : AnswerTable := [("a", .ok [.ofImports "a" ["r"]]), ("r", .ok [.ofImports "x" ["r"]])]

/-- The compiler that answers from `detour` and knows its names. -/
def detourSource : DescriptorSource Unit :=
  answeringSource (fun n => (detour.lookup n).isSome) detour fun _ => .io "no such file"

/-- The answer for `r` asks for `r` again, at any depth. -/
theorem resolve_detour (depth : ℕ) (hr : c.contains "r" = false)
    (hfree : c.inProgress.contains "r" = false) (hx : c.contains "x" = false) :
    outcome (resolve detourSource depth [.ofImports "x" ["r"]] c) () =
      (.error (.invalidRequest .tooDeep), ()) := by
  induction depth generalizing c with
  | zero => rfl
  | succ depth ih =>
    have hopened : (c.start "x").inProgress.contains "r" = false := by
      rw [Closure.start]
      split_ifs
      · exact hfree
      · simpa using hfree
    have hcompile : outcome (detourSource.compile ["r"]) () = (.ok [.ofImports "x" ["r"]], ()) := rfl
    have hlocate : (detourSource.locate "r").run () = (true, ()) := rfl
    rw [resolve, outcome_foldlM_cons, outcome_resolveFile,
      if_neg (by simpa using hx), FileDescriptor.dependencies_ofImports, outcome_foldlM_cons,
      outcome_resolveImport, if_neg (by simpa using hr), FileDescriptor.name_ofImports,
      if_neg (ne_true_of_eq_false hopened), hlocate]
    dsimp only
    rw [hcompile]
    dsimp only
    rw [ih (by simpa using hr) hopened (by simpa using hx)]

/-- A build can go on forever: `r` is compiled alone while its own answer is under way, again and
again, whatever the depth. -/
theorem endless_detour :
    (∀ depth, outcome (CompilationRequest.build detourSource depth ["a"]) () =
        (.error (.invalidRequest .tooDeep), ())) ∧
      ¬ Unentangled detourSource ["a"] (.files [.ofImports "a" ["r"]]) .empty () ∧
      ∀ bound, ¬ Ends detourSource bound ["a"] () := by
  have hentangled : ¬ Unentangled detourSource ["a"] (.files [.ofImports "a" ["r"]]) .empty () := by
    intro h
    have hcompile : outcome (detourSource.compile ["r"]) () =
      (.ok [.ofImports "x" ["r"]], ()) := rfl
    refine h "r" ["r", "a"] (.inside rfl ?_) (by simp)
    rw [FileDescriptor.dependencies_ofImports, FileDescriptor.name_ofImports]
    refine .nested ⟨rfl, rfl, rfl⟩ hcompile (.inside rfl ?_)
    rw [FileDescriptor.dependencies_ofImports, FileDescriptor.name_ofImports]
    exact .here ⟨rfl, rfl, rfl⟩
  refine ⟨fun depth => ?_, hentangled, fun bound h => hentangled (h.unentangled _ () rfl)⟩
  have hcompile : outcome (detourSource.compile ["a"]) () = (.ok [.ofImports "a" ["r"]], ()) := rfl
  have hdetour : outcome (detourSource.compile ["r"]) () = (.ok [.ofImports "x" ["r"]], ()) := rfl
  have hlocate : (detourSource.locate "r").run () = (true, ()) := rfl
  rw [CompilationRequest.outcome_build, if_neg (by decide), hcompile]
  dsimp only
  cases depth with
  | zero => rfl
  | succ depth =>
    rw [resolve, outcome_foldlM_cons, outcome_resolveFile, if_neg (by decide),
      FileDescriptor.dependencies_ofImports, outcome_foldlM_cons, outcome_resolveImport,
      if_neg (by decide), if_neg (by decide), hlocate]
    dsimp only
    rw [hdetour]
    dsimp only
    rw [resolve_detour depth rfl rfl rfl]

end ProtoForge.Resolution
