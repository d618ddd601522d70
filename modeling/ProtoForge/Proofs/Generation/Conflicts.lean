import ProtoForge.Proofs.Generation.Answers
import Mathlib

/-!
# Conflicts of output paths

Two paths overlap if they are the same or if one is a directory that the other
one lies in, name by name. The lookups of a batch find an overlap just where a
scan over its files finds one, and of several such files they tell the earliest.
-/
namespace ProtoForge.Generation

/-- Two paths that cannot both be files: they are the same, or one lies below the other. -/
def Overlap (p q : String) : Prop := p = q ∨ LiesBelow p q ∨ LiesBelow q p

variable {p q dir path : String}

instance : Decidable (Overlap p q) := inferInstanceAs (Decidable (_ ∨ _ ∨ _))

/-- Paths overlap if the names of one begin those of the other. Characters that they share do not
count. -/
theorem overlap_iff_pieces :
    Overlap p q ↔ Path.pieces p <+: Path.pieces q ∨ Path.pieces q <+: Path.pieces p := by
  rw [Overlap, pieces_isPrefix_iff, pieces_isPrefix_iff, eq_comm (a := q), or_or_or_comm, or_self]

/-- Two paths above a third one overlap. -/
theorem Overlap.of_above (hp : LiesBelow p path) (hq : LiesBelow q path) : Overlap p q := by
  have hp' := pieces_isPrefix_iff.mpr (Or.inr hp)
  have hq' := pieces_isPrefix_iff.mpr (Or.inr hq)
  exact overlap_iff_pieces.mpr (List.prefix_or_prefix_of_prefix hp' hq')

namespace Batch

variable {b b' : Batch} {f g : GeneratedFile} {generator : String} {started : Bool}
  {e : Plugin.ResponseFile} {before rest : List Plugin.ResponseFile}

/-- The file of a batch that overlaps a path and was added before all others that do. -/
def earliestOverlap? (b : Batch) (path : String) : Option GeneratedFile :=
  b.files.find? fun f => Overlap f.path path

theorem Indexed.eq_of_overlap (h : b.Indexed) (hf : f ∈ b.files) (hg : g ∈ b.files)
    (hoverlap : Overlap f.path g.path) : f = g := by
  rcases hoverlap with hsame | hbelow | hbelow
  · exact List.inj_on_of_nodup_map h.distinct hf hg hsame
  · exact absurd hbelow (h.apart f hf g hg)
  · exact absurd hbelow (h.apart g hg f hf)

/-- A file at a path or above it is the only one that overlaps the path. -/
theorem Indexed.eq_of_above (h : b.Indexed) (hf : f ∈ b.files) (hg : g ∈ b.files)
    (habove : f.path = path ∨ LiesBelow f.path path) (hoverlap : Overlap g.path path) : g = f := by
  refine h.eq_of_overlap hg hf ?_
  rcases habove with rfl | habove
  · exact hoverlap
  · rcases hoverlap with hsame | hbelow | hbelow
    · exact Or.inr (Or.inr (hsame ▸ habove))
    · exact .of_above hbelow habove
    · exact Or.inr (Or.inr (habove.trans hbelow))

/-- The owners of the directories above a path tell the generator of a file there. -/
theorem Indexed.findSome?_owners_eq (h : b.Indexed) (hf : f ∈ b.files)
    (habove : LiesBelow f.path path) :
    (parentDirectories path).findSome? (fun dir => b.owners.lookup dir) = some f.generator := by
  cases hfound : (parentDirectories path).findSome? fun dir => b.owners.lookup dir with
  | none =>
    have hnone := List.findSome?_eq_none_iff.mp hfound f.path (mem_parentDirectories.mpr habove)
    rw [(h.owners _ _).mpr ⟨f, hf, rfl, rfl⟩] at hnone
    cases hnone
  | some owner =>
    obtain ⟨dir, hdir, hlookup⟩ := List.exists_of_findSome?_eq_some hfound
    obtain ⟨g, hg, rfl, rfl⟩ := (h.owners _ _).mp hlookup
    rw [h.eq_of_above hf hg (Or.inr habove) (Or.inr (Or.inl (mem_parentDirectories.mp hdir)))]

/-- The three lookups together tell the generator of the earliest file that overlaps a path. -/
theorem Indexed.overlappingOwner?_eq (h : b.Indexed) (path : String) :
    b.overlappingOwner? path = (b.earliestOverlap? path).map (·.generator) := by
  cases hfind : b.earliestOverlap? path with
  | none =>
    have hnone := List.find?_eq_none.mp hfind
    have hclear : b.overlappingOwner? (GeneratedFile.mk path [] "").path = none ↔ _ :=
      h.overlappingOwner?_eq_none_iff
    refine hclear.mpr fun f hf hclash => ?_
    exact hnone f hf (decide_eq_true hclash)
  | some f =>
    have hf := List.mem_of_find?_eq_some hfind
    have hoverlap : Overlap f.path path := by simpa using List.find?_some hfind
    rw [overlappingOwner?, Option.map_some]
    rcases hoverlap with rfl | habove | hbelow
    · rw [(h.owners _ _).mpr ⟨f, hf, rfl, rfl⟩, Option.some_or]
    · have hfree : ∀ g ∈ b.files, g.path ≠ path := by
        rintro g hg rfl
        obtain rfl := h.eq_of_above hf hg (Or.inr habove) (Or.inl rfl)
        exact not_liesBelow_self habove
      rw [h.lookup_owners_eq_none hfree, h.findSome?_owners_eq hf habove, Option.none_or,
        Option.some_or]
    · -- nothing lies at the path or above it, so the overlaps are the files below it
      have hnot : ∀ g ∈ b.files, ¬ (g.path = path ∨ LiesBelow g.path path) := by
        intro g hg habove
        obtain rfl := h.eq_of_above hg hf habove (Or.inr (Or.inr hbelow))
        rcases habove with rfl | habove
        · exact not_liesBelow_self hbelow
        · exact not_liesBelow_self (hbelow.trans habove)
      have hdirs : (parentDirectories path).findSome? (fun dir => b.owners.lookup dir) = none := by
        refine List.findSome?_eq_none_iff.mpr fun dir hdir => h.lookup_owners_eq_none ?_
        rintro g hg rfl
        exact hnot g hg (Or.inr (mem_parentDirectories.mp hdir))
      have hscan : b.files.find? (fun g => LiesBelow path g.path) = b.earliestOverlap? path := by
        refine List.find?_congr fun g hg => ?_
        have hiff : LiesBelow path g.path ↔ Overlap g.path path := by
          refine ⟨fun hlies => Or.inr (Or.inr hlies), ?_⟩
          rintro (hsame | habove | hlies)
          · exact absurd (Or.inl hsame) (hnot g hg)
          · exact absurd (Or.inr habove) (hnot g hg)
          · exact hlies
        simp [hiff]
      rw [h.lookup_owners_eq_none fun g hg heq => hnot g hg (Or.inl heq), hdirs, h.directories,
        hscan, hfind]
      rfl

/-- Entries in two parts: what the first part leaves is where the second one starts. -/
theorem addEntries_append (generator : String) (started : Bool) (b : Batch)
    (before rest : List Plugin.ResponseFile) :
    addEntries generator started b (before ++ rest) =
      match addEntries generator started b before with
      | (.ok (), b') => addEntries generator (started || !before.isEmpty) b' rest
      | (.error fault, b') => (.error fault, b') := by
  induction before generalizing started b with
  | nil => simp [addEntries]
  | cons e before ih =>
    rw [List.cons_append, addEntries, addEntries]
    cases hadd : addEntry generator started b e with
    | error fault => rfl
    | ok b' =>
      have hrest := ih true b'
      rw [Bool.true_or] at hrest
      simpa using hrest

/-- An answer goes on from where its first entries have led. -/
theorem add_append {r : Plugin.Response}
    (h : b.add generator { r with files := before } = (.ok (), b'))
    (rest : List Plugin.ResponseFile) :
    b.add generator { r with files := before ++ rest } =
      addEntries generator (!before.isEmpty) b' rest := by
  rw [add] at h ⊢
  split_ifs at h ⊢ with herror
  · cases h
  · rw [addEntries_append, h]
    rfl

/-- A named entry with a path in order is refused for the earliest file that overlaps the path, or
added. -/
theorem Indexed.addEntry_named (h : b.Indexed) (generator : String) (started : Bool)
    (hpoint : textOf e.insertionPoint = "")
    (hname : textOf e.name ≠ "") (hpath : normalizePath? (textOf e.name) = some path) :
    Batch.addEntry generator started b e =
      match b.earliestOverlap? path with
      | some f => .error (.outputConflict path f.generator generator)
      | none => .ok (b.push ⟨path, contentOf e, generator⟩) := by
  have howner := h.overlappingOwner?_eq path
  rw [Batch.addEntry, if_neg (not_not_intro hpoint), if_neg hname, addNamed, hpath]
  dsimp only
  rw [howner]
  cases b.earliestOverlap? path <;> rfl

theorem earliestOverlap?_eq_some_iff :
    b.earliestOverlap? path = some f ↔ Overlap f.path path ∧ ∃ earlier later,
      b.files = earlier ++ f :: later ∧ ∀ g ∈ earlier, ¬ Overlap g.path path := by
  simp [earliestOverlap?, List.find?_eq_some_iff_append]

/-- Whatever was added before, in earlier answers and in the same one: a named entry that is
acceptable otherwise is refused for a conflict just if a file of the batch lies at its path, above
it or below it. The refusal tells the path, the generator of the earliest such file and the one
that adds; no further entry is looked at. Whether paths overlap is a matter of their names, not of
the characters that they begin with. -/
theorem conflict_iff_overlap {adds : List (String × Plugin.Response)} {r : Plugin.Response}
    (hbefore : (afterAdds adds).add generator { r with files := before } = (.ok (), b))
    (hpoint : textOf e.insertionPoint = "") (hname : textOf e.name ≠ "")
    (hpath : normalizePath? (textOf e.name) = some path) :
    ((∃ p first second, ((afterAdds adds).add generator { r with files := before ++ [e] }).1 =
          .error (.outputConflict p first second)) ↔
        ∃ f ∈ b.files, f.path = path ∨ LiesBelow f.path path ∨ LiesBelow path f.path) ∧
      (∀ p first second, ((afterAdds adds).add generator { r with files := before ++ [e] }).1 =
          .error (.outputConflict p first second) →
        p = path ∧ second = generator ∧
          (∃ f earlier later, b.files = earlier ++ f :: later ∧ first = f.generator ∧
            Overlap f.path path ∧ ∀ g ∈ earlier, ¬ Overlap g.path path) ∧
          ∀ rest, (afterAdds adds).add generator { r with files := before ++ e :: rest } =
            (.error (.outputConflict p first second), b)) ∧
      ∀ p q, Overlap p q ↔ Path.pieces p <+: Path.pieces q ∨ Path.pieces q <+: Path.pieces p := by
  have hb : b.Indexed := by
    have hindexed := (afterAdds_indexed adds).add generator { r with files := before }
    rwa [hbefore] at hindexed
  have hstep := hb.addEntry_named generator (!before.isEmpty) hpoint hname hpath
  cases hfind : b.earliestOverlap? path with
  | none =>
    have hresult : ((afterAdds adds).add generator { r with files := before ++ [e] }).1 = .ok () := by
      rw [add_append hbefore [e], addEntries, hstep, hfind]
      rfl
    rw [hresult]
    refine ⟨⟨?_, ?_⟩, ?_, fun p q => overlap_iff_pieces⟩
    · rintro ⟨p, first, second, h⟩
      cases h
    · rintro ⟨f, hf, hoverlap⟩
      exact absurd (decide_eq_true hoverlap) (List.find?_eq_none.mp hfind f hf)
    · intro p first second h
      cases h
  | some f =>
    have hresult : ∀ rest, (afterAdds adds).add generator { r with files := before ++ e :: rest } =
        (.error (.outputConflict path f.generator generator), b) := by
      intro rest
      rw [add_append hbefore (e :: rest), addEntries, hstep, hfind]
    obtain ⟨hoverlap, earlier, later, hfiles, hearlier⟩ := earliestOverlap?_eq_some_iff.mp hfind
    rw [hresult []]
    refine ⟨⟨fun _ => ?_, fun _ => ⟨_, _, _, rfl⟩⟩, ?_, fun p q => overlap_iff_pieces⟩
    · exact ⟨f, by simp [hfiles], hoverlap⟩
    · intro p first second h
      cases h
      exact ⟨rfl, rfl, ⟨f, earlier, later, hfiles, rfl, hoverlap, hearlier⟩, hresult⟩

/-- A generator that writes below a directory, and another one that does so later. -/
def sharedDirectory : List (String × Plugin.Response) :=
  [("g", { files := [{ name := some "lib/x", content := some "1" }] }),
    ("h", { files := [{ name := some "lib/y", content := some "2" }] })]

/-- A file at the directory conflicts with the earlier one of them, a file beside it does not. -/
theorem shared_directory_conflicts :
    (∃ b, (afterAdds sharedDirectory).add "i" { files := [{ name := some "library" }] } =
        (.ok (), b)) ∧
      normalizePath? (textOf (some "./lib")) = some "lib" ∧
      ((afterAdds sharedDirectory).add "i"
        { files := [{ name := some "library" }, { name := some "./lib" }] }).1 =
          .error (.outputConflict "lib" "g" "i") := by
  have hpath : normalizePath? (textOf (some "./lib")) = some "lib" := by cbv
  obtain ⟨b, hbefore, hfiles⟩ : ∃ b, (afterAdds sharedDirectory).add "i"
      { files := [{ name := some "library" }] } = (.ok (), b) ∧
        b.files = [⟨"lib/x", [49], "g"⟩, ⟨"lib/y", [50], "h"⟩, ⟨"library", [], "i"⟩] :=
    ⟨_, by cbv, by cbv⟩
  obtain ⟨hiff, hfields, -⟩ := conflict_iff_overlap (r := {}) (e := { name := some "./lib" })
    hbefore rfl (by decide) hpath
  obtain ⟨p, first, second, hconflict⟩ := hiff.mpr
    ⟨⟨"lib/x", [49], "g"⟩, by simp [hfiles], Or.inr (Or.inr ⟨"x", rfl⟩)⟩
  obtain ⟨rfl, rfl, ⟨f, earlier, later, hsplit, rfl, -, hearlier⟩, -⟩ := hfields _ _ _ hconflict
  rw [hfiles] at hsplit
  refine ⟨⟨b, hbefore⟩, hpath, ?_⟩
  cases earlier with
  | nil =>
    obtain rfl : ⟨"lib/x", [49], "g"⟩ = f := (List.cons_eq_cons.mp hsplit).1
    exact hconflict
  | cons g earlier =>
    obtain rfl : ⟨"lib/x", [49], "g"⟩ = g := (List.cons_eq_cons.mp hsplit).1
    exact absurd (Or.inr (Or.inr ⟨"x", rfl⟩)) (hearlier _ List.mem_cons_self)

end Batch

end ProtoForge.Generation
