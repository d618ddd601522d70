import ProtoForge.Proofs.Resolution.Order
import ProtoForge.Proofs.Resolution.Walk
import Mathlib.Logic.Relation

/-!
# Tables of descriptors

A compiler that answers from a table and keeps the list of its calls. What the
imports of a table reach, and the order in which a depth-first walk leaves the
files: each after all that it imports.
-/
namespace ProtoForge.Resolution

/-- The descriptor that a table files under a name. -/
def filed (t : List FileDescriptor) (n : String) : Option FileDescriptor := t.find? (·.name = n)

/-- A compiler that knows the files of a table and fails if one of them is missing; its state is
the list of its calls. -/
def tableSource (t : List FileDescriptor) (missing : List String → Failure) :
    DescriptorSource (List (List String)) where
  locate n := pure (filed t n).isSome
  compile names := do
    modify (· ++ [names])
    match names.mapM (filed t) with
    | some set => pure set
    | none => throw (missing names)

/-- A file of a table imports a name. -/
def Imports (t : List FileDescriptor) (a b : String) : Prop :=
  ∃ f, filed t a = some f ∧ b ∈ f.dependencies

/-- A name can be reached from some roots. -/
def Reachable (t : List FileDescriptor) (roots : List String) (n : String) : Prop :=
  ∃ r ∈ roots, Relation.ReflTransGen (Imports t) r n

/-- A name imports itself, directly or not. -/
def OnCycle (t : List FileDescriptor) (n : String) : Prop := Relation.TransGen (Imports t) n n

/-- The files that a depth-first walk over some names leaves, in the order in which it leaves
them: a file that was not seen comes after the new ones among its imports. -/
inductive PostOrder (t : List FileDescriptor) :
    List String → List String → List FileDescriptor → Prop
  | nil (seen : List String) : PostOrder t seen [] []
  | seen {seen : List String} {n : String} {ns : List String} {fs : List FileDescriptor}
      (hn : n ∈ seen) (rest : PostOrder t seen ns fs) : PostOrder t seen (n :: ns) fs
  | visit {seen : List String} {n : String} {ns : List String} {f : FileDescriptor}
      {fs gs : List FileDescriptor} (hn : n ∉ seen) (hf : filed t n = some f)
      (below : PostOrder t seen f.dependencies fs)
      (rest : PostOrder t (seen ++ fs.map (·.name) ++ [n]) ns gs) :
      PostOrder t seen (n :: ns) (fs ++ f :: gs)

variable {t : List FileDescriptor} {seen ns ms roots : List String} {fs gs : List FileDescriptor}
  {f : FileDescriptor} {n m a b : String}

theorem name_of_filed (h : filed t n = some f) : f.name = n := by
  simpa using List.find?_some h

theorem mem_of_filed (h : filed t n = some f) : f ∈ t := List.mem_of_find?_eq_some h

theorem Reachable.imports (h : Reachable t roots a) (hab : Imports t a b) :
    Reachable t roots b := by
  obtain ⟨r, hr, hra⟩ := h
  exact ⟨r, hr, hra.tail hab⟩

namespace PostOrder

theorem append (h : PostOrder t seen ns fs) (h' : PostOrder t (seen ++ fs.map (·.name)) ms gs) :
    PostOrder t seen (ns ++ ms) (fs ++ gs) := by
  induction h with
  | nil seen => simpa using h'
  | seen hn rest ih => exact .seen hn (ih h')
  | @visit seen n ns f fs hs hn hf below rest ihbelow ihrest =>
    rw [List.append_assoc, List.cons_append]
    refine .visit hn hf below (ihrest ?_)
    have hname := name_of_filed hf
    simpa [hname] using h'

/-- There is only one such order. -/
theorem unique (h : PostOrder t seen ns fs) (h' : PostOrder t seen ns gs) : fs = gs := by
  induction h generalizing gs with
  | nil seen =>
    cases h'
    rfl
  | seen hn rest ih =>
    cases h' with
    | seen hn' rest' => exact ih rest'
    | visit hn' hf below rest' => exact absurd hn hn'
  | visit hn hf below rest ihbelow ihrest =>
    cases h' with
    | seen hn' rest' => exact absurd hn' hn
    | visit hn' hf' below' rest' =>
      rw [hf] at hf'
      obtain rfl := Option.some.inj hf'
      obtain rfl := ihbelow below'
      rw [ihrest rest']

/-- All names of the walk are seen in the end. -/
theorem covers (h : PostOrder t seen ns fs) (hn : n ∈ ns) :
    n ∈ seen ++ fs.map (·.name) := by
  induction h with
  | nil seen => simp at hn
  | @seen seen m ns fs hm rest ih =>
    rcases List.mem_cons.mp hn with rfl | hn
    · exact List.mem_append_left _ hm
    · exact ih hn
  | @visit seen m ns f fs gs hm hf below rest ihbelow ihrest =>
    have hname := name_of_filed hf
    rcases List.mem_cons.mp hn with rfl | hn
    · simp [hname]
    · simpa [hname] using ihrest hn

/-- Every file comes after all that it imports. -/
theorem importsFirst (h : PostOrder t seen ns fs) : ImportsFirst seen fs := by
  induction h with
  | nil seen => trivial
  | seen hn rest ih => exact ih
  | @visit seen m ns f fs gs hm hf below rest ihbelow ihrest =>
    refine importsFirst_append.mpr ⟨ihbelow, fun d hd => below.covers hd, ?_⟩
    rw [name_of_filed hf]
    exact ihrest

theorem filed_of_mem (h : PostOrder t seen ns fs) (hf : f ∈ fs) : filed t f.name = some f := by
  induction h with
  | nil seen => simp at hf
  | seen hn rest ih => exact ih hf
  | @visit seen m ns g fs gs hm hg below rest ihbelow ihrest =>
    rcases List.mem_append.mp hf with hf | hf
    · exact ihbelow hf
    · rcases List.mem_cons.mp hf with rfl | hf
      · rwa [name_of_filed hg]
      · exact ihrest hf

/-- Only what the names reach is walked. -/
theorem reachable_of_mem (h : PostOrder t seen ns fs) (hf : f ∈ fs) :
    Reachable t ns f.name := by
  induction h with
  | nil seen => simp at hf
  | seen hn rest ih =>
    obtain ⟨r, hr, hreach⟩ := ih hf
    exact ⟨r, List.mem_cons_of_mem _ hr, hreach⟩
  | @visit seen m ns g fs gs hm hg below rest ihbelow ihrest =>
    rcases List.mem_append.mp hf with hf | hf
    · obtain ⟨d, hd, hreach⟩ := ihbelow hf
      exact ⟨m, List.mem_cons_self, hreach.head ⟨g, hg, hd⟩⟩
    · rcases List.mem_cons.mp hf with rfl | hf
      · rw [name_of_filed hg]
        exact ⟨m, List.mem_cons_self, .refl⟩
      · obtain ⟨r, hr, hreach⟩ := ihrest hf
        exact ⟨r, List.mem_cons_of_mem m hr, hreach⟩

theorem mem_of_imports (h : PostOrder t [] ns fs) (ha : a ∈ fs.map (·.name))
    (hab : Imports t a b) : ∃ f ∈ fs, f.name = a ∧ b ∈ f.dependencies := by
  obtain ⟨f, hf, rfl⟩ := List.mem_map.mp ha
  obtain ⟨g, hg, hb⟩ := hab
  rw [h.filed_of_mem hf] at hg
  obtain rfl := Option.some.inj hg
  exact ⟨f, hf, rfl, hb⟩

/-- A walk from nothing seen leaves exactly the files that its names reach. -/
theorem mem_names_iff (h : PostOrder t [] ns fs) :
    n ∈ fs.map (·.name) ↔ Reachable t ns n := by
  constructor
  · intro hn
    obtain ⟨f, hf, rfl⟩ := List.mem_map.mp hn
    exact h.reachable_of_mem hf
  · rintro ⟨r, hr, hreach⟩
    induction hreach with
    | refl => simpa using h.covers hr
    | tail hra hab ih =>
      obtain ⟨f, hf, -, hb⟩ := h.mem_of_imports ih hab
      simpa using mem_of_importsFirst h.importsFirst hf hb

/-- An import of a walked file stands before it. -/
theorem idxOf_lt (h : PostOrder t [] ns fs) (hd : (fs.map (·.name)).Nodup)
    (ha : a ∈ fs.map (·.name)) (hab : Imports t a b) :
    (fs.map (·.name)).idxOf b < (fs.map (·.name)).idxOf a := by
  obtain ⟨f, hf, rfl, hb⟩ := h.mem_of_imports ha hab
  simpa using DependencyGraph.idxOf_lt_of_importsFirst h.importsFirst (by simpa using hd) hf hb

/-- A name that was walked lies on no cycle, as imports lead to earlier places. -/
theorem not_onCycle (h : PostOrder t [] ns fs) (hd : (fs.map (·.name)).Nodup)
    (hn : n ∈ fs.map (·.name)) : ¬ OnCycle t n := by
  intro hcycle
  have hlater : ∀ b, Relation.TransGen (Imports t) n b →
      b ∈ fs.map (·.name) ∧ (fs.map (·.name)).idxOf b < (fs.map (·.name)).idxOf n := by
    intro b hb
    induction hb with
    | single hab =>
      exact ⟨h.mem_names_iff.mpr ((h.mem_names_iff.mp hn).imports hab), h.idxOf_lt hd hn hab⟩
    | tail _ hab ih =>
      refine ⟨h.mem_names_iff.mpr ((h.mem_names_iff.mp ih.1).imports hab), ?_⟩
      exact (h.idxOf_lt hd ih.1 hab).trans ih.2
  exact lt_irrefl _ (hlater n hcycle).2

end PostOrder

end ProtoForge.Resolution
