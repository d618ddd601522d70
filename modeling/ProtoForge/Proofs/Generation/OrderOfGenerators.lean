import ProtoForge.Proofs.Generation.Answers
import ProtoForge.Proofs.Generation.Dispatch
import Mathlib

/-!
# The order of generators

Generators whose answers are fixed can be asked in any order. A dispatch
succeeds if every generator gives a sound answer and no two files of all their
answers clash, which does not depend on the order; the batch then holds, one
generator after the other, what each of them gives alone.
-/
namespace ProtoForge.Generation

variable {ε : Type}

namespace Generator

/-- What a generator answers in some state of the world. -/
def answer (g : Generator ε) (request : Plugin.Request) (view : Staging.View) (w : World ε) :
    Except Failure Plugin.Response := (outcome (g.generate request view) w).1

/-- A generator that answers with the same response, or the same failure, in every state of the
world. -/
def HasFixedAnswer (g : Generator ε) (request : Plugin.Request) (view : Staging.View) : Prop :=
  ∃ a, ∀ w, g.answer request view w = a

/-- A generator that gives an answer without an error whose entries are in order. -/
def IsSound (g : Generator ε) (request : Plugin.Request) (view : Staging.View) (w : World ε) :
    Prop := ∃ r, g.answer request view w = .ok r ∧ Batch.IsSoundAnswer r

/-- The files of what a generator answers. -/
def offers (g : Generator ε) (request : Plugin.Request) (view : Staging.View) (w : World ε) :
    List GeneratedFile :=
  match g.answer request view w with
  | .ok r => Batch.filesOf g.id r.files
  | .error _ => []

variable {g : Generator ε} {request : Plugin.Request} {view : Staging.View}

theorem HasFixedAnswer.answer_eq (h : g.HasFixedAnswer request view) (w w' : World ε) :
    g.answer request view w = g.answer request view w' := by
  obtain ⟨a, ha⟩ := h
  rw [ha w, ha w']

theorem HasFixedAnswer.isSound_iff (h : g.HasFixedAnswer request view) (w w' : World ε) :
    g.IsSound request view w ↔ g.IsSound request view w' := by
  rw [IsSound, IsSound, h.answer_eq w w']

theorem HasFixedAnswer.offers_eq (h : g.HasFixedAnswer request view) (w w' : World ε) :
    g.offers request view w = g.offers request view w' := by
  rw [offers, offers, h.answer_eq w w']

end Generator

variable {generators generators' : List (Generator ε)} {g : Generator ε} {b b' : Batch}
  {w w' : World ε} {request : Plugin.Request} {view : Staging.View}

/-- Asking a generator succeeds if its answer is added in full. -/
theorem addAnswer_eq_ok_iff : (outcome (addAnswer request view b g) w).1 = .ok b' ↔
    ∃ r, g.answer request view w = .ok r ∧ b.add g.id r = (.ok (), b') := by
  rw [addAnswer, outcome_bind, Generator.answer]
  rcases outcome (g.generate request view) w with ⟨e | r, w₁⟩
  · simp
  · rcases hadd : b.add g.id r with ⟨e | ⟨⟩, b₁⟩ <;> simp [hadd]

/-- One more generator is asked with success if its answer is sound and its files clash neither
with each other nor with earlier ones. -/
theorem exists_addAnswer_iff (hb : b.Indexed) :
    (∃ b', (outcome (addAnswer request view b g) w).1 = .ok b') ↔
      g.IsSound request view w ∧ Apart (b.files ++ g.offers request view w) := by
  simp only [addAnswer_eq_ok_iff, Generator.IsSound, Generator.offers]
  cases g.answer request view w with
  | error e => simp
  | ok r =>
    simp only [Except.ok.injEq, exists_eq_left']
    rw [← Batch.add_eq_ok_iff hb]
    constructor
    · rintro ⟨b', hadd⟩
      rw [hadd]
    · intro hok
      exact ⟨(b.add g.id r).2, Prod.ext hok rfl⟩

theorem addAnswer_spec (hb : b.Indexed)
    (h : (outcome (addAnswer request view b g) w).1 = .ok b') :
    b'.Indexed ∧ b'.files = b.files ++ g.offers request view w := by
  obtain ⟨r, hanswer, hadd⟩ := addAnswer_eq_ok_iff.mp h
  have hindexed := hb.add g.id r
  have hok : (b.add g.id r).1 = .ok () := by rw [hadd]
  have hfiles := Batch.files_add hok
  rw [hadd] at hindexed hfiles
  exact ⟨hindexed, by rw [hfiles, Generator.offers, hanswer]⟩

theorem addAnswers_cons_eq_ok_iff :
    (outcome ((g :: generators).foldlM (addAnswer request view) b) w).1 = .ok b' ↔
      ∃ b₁, (outcome (addAnswer request view b g) w).1 = .ok b₁ ∧
        (outcome (generators.foldlM (addAnswer request view) b₁)
          (outcome (addAnswer request view b g) w).2).1 = .ok b' := by
  rw [outcome_foldlM_cons]
  rcases outcome (addAnswer request view b g) w with ⟨e | b₁, w₁⟩ <;> simp

/-- Asking generators with fixed answers adds what each of them offers. -/
theorem files_addAnswers (hfixed : ∀ g ∈ generators, g.HasFixedAnswer request view)
    (hb : b.Indexed)
    (h : (outcome (generators.foldlM (addAnswer request view) b) w).1 = .ok b') (w' : World ε) :
    b'.Indexed ∧ b'.files = b.files ++ generators.flatMap (·.offers request view w') := by
  induction generators generalizing b w with
  | nil =>
    obtain rfl : b = b' := Except.ok.inj h
    exact ⟨hb, by simp⟩
  | cons g generators ih =>
    obtain ⟨b₁, hfirst, hrest⟩ := addAnswers_cons_eq_ok_iff.mp h
    obtain ⟨hb₁, hfiles⟩ := addAnswer_spec hb hfirst
    obtain ⟨hb', hall⟩ := ih (fun g hg => hfixed g (List.mem_cons_of_mem _ hg)) hb₁ hrest
    refine ⟨hb', ?_⟩
    rw [hall, hfiles, (hfixed g List.mem_cons_self).offers_eq w w', List.flatMap_cons,
      List.append_assoc]

/-- Generators with fixed answers are asked with success if all answers are sound and no two of
their files clash. -/
theorem exists_addAnswers_iff (hfixed : ∀ g ∈ generators, g.HasFixedAnswer request view)
    (hb : b.Indexed) (w' : World ε) :
    (∃ b', (outcome (generators.foldlM (addAnswer request view) b) w).1 = .ok b') ↔
      (∀ g ∈ generators, g.IsSound request view w') ∧
        Apart (b.files ++ generators.flatMap (·.offers request view w')) := by
  induction generators generalizing b w with
  | nil =>
    rw [List.flatMap_nil, List.append_nil]
    exact ⟨fun _ => ⟨by simp, hb.apart_files⟩, fun _ => ⟨b, rfl⟩⟩
  | cons g generators ih =>
    have hg := hfixed g List.mem_cons_self
    have hrest : ∀ g ∈ generators, g.HasFixedAnswer request view :=
      fun g hg => hfixed g (List.mem_cons_of_mem _ hg)
    have hfirst : (∃ b', (outcome (addAnswer request view b g) w).1 = .ok b') ↔
        g.IsSound request view w ∧ Apart (b.files ++ g.offers request view w) :=
      exists_addAnswer_iff hb
    rw [hg.isSound_iff w w', hg.offers_eq w w'] at hfirst
    rw [List.flatMap_cons, ← List.append_assoc]
    constructor
    · rintro ⟨b', h⟩
      obtain ⟨b₁, hadd, h⟩ := addAnswers_cons_eq_ok_iff.mp h
      obtain ⟨hb₁, hfiles⟩ := addAnswer_spec hb hadd
      obtain ⟨hsound, hapart⟩ := (ih hrest hb₁).mp ⟨b', h⟩
      rw [hfiles, hg.offers_eq w w'] at hapart
      exact ⟨List.forall_mem_cons.mpr ⟨(hfirst.mp ⟨b₁, hadd⟩).1, hsound⟩, hapart⟩
    · rintro ⟨hsound, hapart⟩
      obtain ⟨hsound, hsounds⟩ := List.forall_mem_cons.mp hsound
      obtain ⟨b₁, hadd⟩ := hfirst.mpr ⟨hsound, (List.pairwise_append.mp hapart).1⟩
      obtain ⟨hb₁, hfiles⟩ := addAnswer_spec hb hadd
      rw [← hg.offers_eq w w', ← hfiles] at hapart
      obtain ⟨b', h⟩ := (ih hrest hb₁ (w := _)).mpr ⟨hsounds, hapart⟩
      exact ⟨b', addAnswers_cons_eq_ok_iff.mpr ⟨b₁, hadd, h⟩⟩

/-- A dispatch to generators with fixed answers succeeds if all answers are sound and no two of
their files clash. -/
theorem exists_dispatch_iff {request : Resolution.CompilationRequest}
    (hfixed : ∀ g ∈ generators, g.HasFixedAnswer request.toGeneratorRequest view) (w' : World ε) :
    (∃ b, (outcome (dispatch generators request view) w).1 = .ok b) ↔
      (∀ g ∈ generators, g.IsSound request.toGeneratorRequest view w') ∧
        Apart (generators.flatMap (·.offers request.toGeneratorRequest view w')) :=
  exists_addAnswers_iff hfixed Batch.indexed_empty w'

/-- A dispatch to generators with fixed answers gives what each of them offers. -/
theorem files_dispatch {request : Resolution.CompilationRequest}
    (hfixed : ∀ g ∈ generators, g.HasFixedAnswer request.toGeneratorRequest view)
    (h : (outcome (dispatch generators request view) w).1 = .ok b) (w' : World ε) :
    b.Indexed ∧ b.files = generators.flatMap (·.offers request.toGeneratorRequest view w') := by
  exact files_addAnswers hfixed Batch.indexed_empty h w'

/-- A generator that answers the same in every state of the world gives the same batch alone. -/
theorem dispatch_alone_congr {request : Resolution.CompilationRequest}
    (hfixed : g.HasFixedAnswer request.toGeneratorRequest view) :
    (outcome (dispatch [g] request view) w).1 = .ok b ↔
      (outcome (dispatch [g] request view) w').1 = .ok b := by
  have hdispatch : ∀ w, (outcome (dispatch [g] request view) w).1 = .ok b ↔
      ∃ r, g.answer request.toGeneratorRequest view w = .ok r ∧
        Batch.empty.add g.id r = (.ok (), b) := by
    intro w
    rw [← addAnswer_eq_ok_iff, dispatch, addAnswers_cons_eq_ok_iff]
    constructor
    · rintro ⟨b₁, hadd, hnil⟩
      rw [hadd, show b₁ = b from Except.ok.inj hnil]
    · intro hadd
      exact ⟨b, hadd, rfl⟩
  rw [hdispatch, hdispatch, hfixed.answer_eq w w']

/-- If a dispatch to several generators succeeds, so does one to each of them. -/
theorem exists_dispatch_alone {request : Resolution.CompilationRequest}
    (hfixed : ∀ g ∈ generators, g.HasFixedAnswer request.toGeneratorRequest view)
    (h : (outcome (dispatch generators request view) w).1 = .ok b) (hg : g ∈ generators) :
    ∃ b₁, (outcome (dispatch [g] request view) w).1 = .ok b₁ ∧
      b₁.files = g.offers request.toGeneratorRequest view w := by
  have halone : ∀ g' ∈ [g], g'.HasFixedAnswer request.toGeneratorRequest view := by
    simpa using hfixed g hg
  obtain ⟨hsound, hapart⟩ := (exists_dispatch_iff hfixed w).mp ⟨b, h⟩
  have hsub : ([g].flatMap (·.offers request.toGeneratorRequest view w)).Sublist
      (generators.flatMap (·.offers request.toGeneratorRequest view w)) :=
    (List.singleton_sublist.mpr hg).flatMap _
  obtain ⟨b₁, hb₁⟩ := (exists_dispatch_iff (w := w) halone w).mpr
    ⟨by simpa using hsound g hg, hapart.sublist hsub⟩
  exact ⟨b₁, hb₁, by simpa using (files_dispatch halone hb₁ w).2⟩

/-- In a batch the file of a path is the only one there. -/
theorem Batch.Indexed.get?_eq_some_iff (hb : b.Indexed) {path : String} {f : GeneratedFile} :
    b.get? path = some f ↔ f ∈ b.files ∧ f.path = path := by
  constructor
  · intro h
    exact ⟨List.mem_of_find?_eq_some h, by simpa using List.find?_some h⟩
  · rintro ⟨hf, rfl⟩
    have hfound : b.get? f.path ≠ none := by
      intro hnone
      exact List.find?_eq_none.mp hnone f hf (by simp)
    obtain ⟨f', hf'⟩ := Option.ne_none_iff_exists'.mp hfound
    have hpath : f'.path = f.path := by simpa using List.find?_some hf'
    rw [hf', List.inj_on_of_nodup_map hb.distinct (List.mem_of_find?_eq_some hf') hf hpath]

/-- Batches of the same files answer alike for files and owners. -/
theorem Batch.Indexed.alike_of_perm (hb : b.Indexed) (hb' : b'.Indexed)
    (hperm : b.files.Perm b'.files) (path : String) :
    b.get? path = b'.get? path ∧ b.owners.lookup path = b'.owners.lookup path := by
  constructor
  · refine Option.ext fun f => ?_
    rw [hb.get?_eq_some_iff, hb'.get?_eq_some_iff, hperm.mem_iff]
  · refine Option.ext fun generator => ?_
    simp only [hb.owners, hb'.owners, hperm.mem_iff]

/-- Asked in any other order, generators with fixed answers succeed together or fail together. The
batch is, one generator after the other, what each gives alone, so another order gives the same
files with the same contents and owners. -/
theorem dispatch_perm {request : Resolution.CompilationRequest}
    (hfixed : ∀ g ∈ generators, g.HasFixedAnswer request.toGeneratorRequest view)
    (hperm : generators.Perm generators') (w w' : World ε) :
    ((∃ b, (outcome (dispatch generators request view) w).1 = .ok b) ↔
        ∃ b, (outcome (dispatch generators' request view) w').1 = .ok b) ∧
      ∀ b b', (outcome (dispatch generators request view) w).1 = .ok b →
        (outcome (dispatch generators' request view) w').1 = .ok b' →
        (∃ alone : Generator ε → Batch,
          (∀ g ∈ generators, ∀ w₁, (outcome (dispatch [g] request view) w₁).1 = .ok (alone g)) ∧
            b.files = generators.flatMap (alone · |>.files) ∧
            b'.files = generators'.flatMap (alone · |>.files)) ∧
          b.files.Perm b'.files ∧
          ∀ path, b.get? path = b'.get? path ∧ b.owners.lookup path = b'.owners.lookup path := by
  have hfixed' : ∀ g ∈ generators', g.HasFixedAnswer request.toGeneratorRequest view :=
    fun g hg => hfixed g (hperm.mem_iff.mpr hg)
  have hoffers := hperm.flatMap_right (·.offers request.toGeneratorRequest view w)
  refine ⟨?_, fun b b' h h' => ?_⟩
  · rw [exists_dispatch_iff hfixed w, exists_dispatch_iff hfixed' w]
    exact and_congr (by simp only [hperm.mem_iff])
      ⟨fun h => h.perm hoffers, fun h => h.perm hoffers.symm⟩
  · obtain ⟨hb, hfiles⟩ := files_dispatch hfixed h w
    obtain ⟨hb', hfiles'⟩ := files_dispatch hfixed' h' w
    have hperm_files : b.files.Perm b'.files := by rw [hfiles, hfiles']; exact hoffers
    have : Nonempty Batch := ⟨.empty⟩
    choose! alone halone hoffered using fun g hg => exists_dispatch_alone hfixed h (g := g) hg
    refine ⟨⟨alone, fun g hg w₁ => ?_, ?_, ?_⟩, hperm_files, hb.alike_of_perm hb' hperm_files⟩
    · exact (dispatch_alone_congr (hfixed g hg)).mp (halone g hg)
    · rw [hfiles]
      exact List.flatMap_congr fun g hg => (hoffered g hg).symm
    · rw [hfiles']
      exact List.flatMap_congr fun g hg => (hoffered g (hperm.mem_iff.mpr hg)).symm

/-- A generator that always gives the same files. -/
def writing (id : String) (files : List Plugin.ResponseFile) : Generator Unit :=
  .host ⟨id, fun _ => pure { files }⟩

theorem hasFixedAnswer_writing (id : String) (files : List Plugin.ResponseFile)
    (request : Plugin.Request) (view : Staging.View) :
    (writing id files).HasFixedAnswer request view := ⟨.ok { files }, fun _ => rfl⟩

/-- A generator that writes below a directory, in two parts. -/
def partsWriter : Generator Unit :=
  writing "java" [{ name := some "acme/Order.java", content := some "A" }, { content := some "B" }]

/-- A generator that writes beside and below the directory of the other one. -/
def sideWriter : Generator Unit :=
  writing "kotlin" [{ name := some "acme.kt", content := some "C" },
    { name := some "./acme/order/Order.kt", content := some "D" }]

/-- Two generators share a directory; asked in the other order they give the same files. -/
theorem writers_in_either_order :
    (∀ g ∈ [partsWriter, sideWriter], g.HasFixedAnswer ⟨[], none, none, [], []⟩ {}) ∧
      [partsWriter, sideWriter].Perm [sideWriter, partsWriter] ∧
      ∃ b b', (outcome (dispatch [partsWriter, sideWriter] ⟨[], []⟩ {})
            (⟨⟨[], []⟩, [], ()⟩ : World Unit)).1 = .ok b ∧
        (outcome (dispatch [sideWriter, partsWriter] ⟨[], []⟩ {})
            (⟨⟨[], []⟩, [], ()⟩ : World Unit)).1 = .ok b' ∧
        b.files = [⟨"acme/Order.java", [65, 66], "java"⟩, ⟨"acme.kt", [67], "kotlin"⟩,
          ⟨"acme/order/Order.kt", [68], "kotlin"⟩] ∧
        b.files.Perm b'.files := by
  have hfixed : ∀ g ∈ [partsWriter, sideWriter],
      g.HasFixedAnswer (Resolution.CompilationRequest.toGeneratorRequest ⟨[], []⟩) {} := by
    rw [List.forall_mem_cons, List.forall_mem_singleton]
    exact ⟨hasFixedAnswer_writing _ _ _ _, hasFixedAnswer_writing _ _ _ _⟩
  have hperm : [partsWriter, sideWriter].Perm [sideWriter, partsWriter] := List.Perm.swap _ _ _
  obtain ⟨hiff, hbatches⟩ :=
    dispatch_perm hfixed hperm ⟨⟨[], []⟩, [], ()⟩ ⟨⟨[], []⟩, [], ()⟩
  have hdispatch : ∃ b, (outcome (dispatch [partsWriter, sideWriter] ⟨[], []⟩ {})
      (⟨⟨[], []⟩, [], ()⟩ : World Unit)).1 = .ok b ∧
      b.files = [⟨"acme/Order.java", [65, 66], "java"⟩, ⟨"acme.kt", [67], "kotlin"⟩,
        ⟨"acme/order/Order.kt", [68], "kotlin"⟩] := by
    refine ⟨⟨_, _, _⟩, by cbv, rfl⟩
  obtain ⟨b, hb, hfiles⟩ := hdispatch
  obtain ⟨b', hb'⟩ := hiff.mp ⟨b, hb⟩
  exact ⟨hfixed, hperm, b, b', hb, hb', hfiles, (hbatches b b' hb hb').2.1⟩

end ProtoForge.Generation
