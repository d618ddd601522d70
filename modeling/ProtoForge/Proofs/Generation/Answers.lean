import ProtoForge.Proofs.Generation.Batch

/-!
# What an answer adds to a batch

An answer that is accepted adds one file for each named entry, holding the
content of that entry and of the unnamed ones after it, whatever was in the
batch before. It is accepted if its entries are in order and none of its files
clashes with another one or with a file of the batch; clashing is symmetric.
-/
namespace ProtoForge.Generation

/-- Two files that cannot both be written: one lies at the other's path or would lie below it. -/
def Clash (f g : GeneratedFile) : Prop :=
  f.path = g.path ∨ LiesBelow f.path g.path ∨ LiesBelow g.path f.path

/-- Files that can all be written. -/
def Apart (files : List GeneratedFile) : Prop := files.Pairwise fun f g => ¬ Clash f g

theorem Clash.symm {f g : GeneratedFile} : Clash f g → Clash g f
  | .inl h => .inl h.symm
  | .inr (.inl h) => .inr (.inr h)
  | .inr (.inr h) => .inr (.inl h)

/-- Whether files can all be written does not depend on their order. -/
theorem Apart.perm {fs gs : List GeneratedFile} (h : Apart fs) (hperm : fs.Perm gs) : Apart gs :=
  (hperm.pairwise_iff fun hfg hgf => hfg hgf.symm).mp h

namespace Batch

/-- The content of an entry. -/
def contentOf (e : Plugin.ResponseFile) : Bytes := Bytes.ofText (textOf e.content)

/-- An entry that continues the file before it. -/
def continues (e : Plugin.ResponseFile) : Bool := textOf e.name = ""

/-- The content of the entries up to the next named one. -/
def continuation (entries : List Plugin.ResponseFile) : Bytes :=
  (entries.takeWhile continues).flatMap contentOf

/-- The files of a list of entries, those with a bad name under an empty path. -/
def filesOf (generator : String) : List Plugin.ResponseFile → List GeneratedFile
  | [] => []
  | e :: rest =>
      if continues e then filesOf generator rest
      else
        ⟨(normalizePath? (textOf e.name)).getD "", contentOf e ++ continuation rest, generator⟩ ::
          filesOf generator rest

/-- An entry that can be added unless its file clashes with another one. -/
def IsSound (e : Plugin.ResponseFile) : Prop :=
  textOf e.insertionPoint = "" ∧
    (continues e = false → (normalizePath? (textOf e.name)).isSome = true)

/-- Entries in order: each of them is sound, and if nothing came before them, the first is named. -/
def InOrder (started : Bool) (entries : List Plugin.ResponseFile) : Prop :=
  (∀ e ∈ entries, IsSound e) ∧ (started = false → ∀ e ∈ entries.head?, continues e = false)

variable {b b' : Batch} {generator path : String} {started : Bool} {e : Plugin.ResponseFile}
  {entries : List Plugin.ResponseFile} {file : GeneratedFile} {content more : Bytes}
  {r : Plugin.Response}

theorem Indexed.apart_files (h : b.Indexed) : Apart b.files := by
  have hpaths : b.files.Pairwise fun f g => f.path ≠ g.path := List.pairwise_map.mp h.distinct
  refine hpaths.imp_of_mem fun hf hg hne => ?_
  rintro (heq | hlies | hlies)
  · exact hne heq
  · exact h.apart _ hf _ hg hlies
  · exact h.apart _ hg _ hf hlies

/-- A path at which there is no file has no owner. -/
theorem Indexed.lookup_owners_eq_none (h : b.Indexed) (hnone : ∀ f ∈ b.files, f.path ≠ path) :
    b.owners.lookup path = none := by
  by_contra hsome
  obtain ⟨owner, howner⟩ := Option.ne_none_iff_exists'.mp hsome
  obtain ⟨f, hf, hpath, -⟩ := (h.owners path owner).mp howner
  exact hnone f hf hpath

/-- Nobody claims a path if and only if a file there would clash with no file. -/
theorem Indexed.overlappingOwner?_eq_none_iff (h : b.Indexed) :
    b.overlappingOwner? file.path = none ↔ ∀ f ∈ b.files, ¬ Clash f file := by
  constructor
  · intro hnone f hf
    obtain ⟨hne, habove, hbelow⟩ := h.free hnone f hf
    rintro (heq | hlies | hlies)
    · exact hne heq
    · exact habove hlies
    · exact hbelow hlies
  · intro hfree
    rw [overlappingOwner?, Option.or_eq_none_iff, Option.or_eq_none_iff]
    refine ⟨h.lookup_owners_eq_none fun f hf heq => hfree f hf (.inl heq), ?_, ?_⟩
    · refine List.findSome?_eq_none_iff.mpr fun dir hdir => h.lookup_owners_eq_none fun f hf heq => ?_
      exact hfree f hf (.inr (.inl (heq ▸ mem_parentDirectories.mp hdir)))
    · rw [h.directories, Option.map_eq_none_iff, List.find?_eq_none]
      intro f hf hlies
      exact hfree f hf (.inr (.inr (by simpa using hlies)))

theorem files_push : (b.push file).files = b.files ++ [file] := rfl

/-- What adding an entry does: it continues the last file or adds one that nobody claims. -/
theorem addEntry_eq_ok_iff :
    addEntry generator started b e = .ok b' ↔
      textOf e.insertionPoint = "" ∧
        ((continues e = true ∧ started = true ∧ b' = b.appendToLast (contentOf e)) ∨
          (continues e = false ∧ ∃ path, normalizePath? (textOf e.name) = some path ∧
            b.overlappingOwner? path = none ∧ b' = b.push ⟨path, contentOf e, generator⟩)) := by
  rw [addEntry]
  by_cases hpoint : textOf e.insertionPoint = ""
  · by_cases hname : textOf e.name = ""
    · cases started <;> simp [hpoint, hname, continues, contentOf, eq_comm]
    · rw [if_neg (by simpa using hpoint), if_neg hname, addNamed]
      cases hpath : normalizePath? (textOf e.name) with
      | none => simp [hname, continues]
      | some path =>
        cases hclash : b.overlappingOwner? path with
        | some first => simp [hclash, hname, continues]
        | none => simp [hclash, hname, hpoint, continues, contentOf, eq_comm]
  · simp [hpoint]

theorem inOrder_cons : InOrder started (e :: entries) ↔
    IsSound e ∧ (continues e = true → started = true) ∧ InOrder true entries := by
  cases started <;> cases hcontinues : continues e <;> simp [InOrder, hcontinues]

/-- Whether files can all be written depends on their paths. -/
theorem apart_iff_of_paths {fs gs : List GeneratedFile} (h : fs.map (·.path) = gs.map (·.path)) :
    Apart fs ↔ Apart gs := by
  have hpaths : ∀ files : List GeneratedFile, Apart files ↔ (files.map (·.path)).Pairwise
      fun p q => ¬ (p = q ∨ LiesBelow p q ∨ LiesBelow q p) := by
    intro files
    rw [List.pairwise_map]
    rfl
  rw [hpaths, hpaths, h]

theorem files_appendToLast (content : Bytes) {before : List GeneratedFile}
    (h : b.files = before ++ [file]) : (b.appendToLast content).files =
      before ++ [{ file with content := file.content ++ content }] := by
  simp [appendToLast, h]

theorem paths_appendToLast (b : Batch) (content : Bytes) :
    (b.appendToLast content).files.map (·.path) = b.files.map (·.path) := by
  rcases List.eq_nil_or_concat b.files with hnil | ⟨before, last, hlast⟩
  · simp [appendToLast, hnil]
  · rw [List.concat_eq_append] at hlast
    simp [files_appendToLast content hlast, hlast]

theorem files_appendToLast_twice (b : Batch) (content more : Bytes) :
    ((b.appendToLast content).appendToLast more).files =
      (b.appendToLast (content ++ more)).files := by
  rcases List.eq_nil_or_concat b.files with hnil | ⟨before, last, hlast⟩
  · simp [appendToLast, hnil]
  · rw [List.concat_eq_append] at hlast
    rw [files_appendToLast more (files_appendToLast content hlast),
      files_appendToLast (content ++ more) hlast]
    simp

theorem files_appendToLast_nil (b : Batch) : (b.appendToLast []).files = b.files := by
  rcases List.eq_nil_or_concat b.files with hnil | ⟨before, last, hlast⟩
  · simp [appendToLast, hnil]
  · rw [List.concat_eq_append] at hlast
    simp [files_appendToLast [] hlast, hlast]

theorem filesOf_cons_of_continues (h : continues e = true) :
    filesOf generator (e :: entries) = filesOf generator entries := if_pos h

theorem filesOf_cons_of_named (h : continues e = false)
    (hpath : normalizePath? (textOf e.name) = some path) :
    filesOf generator (e :: entries) =
      ⟨path, contentOf e ++ continuation entries, generator⟩ :: filesOf generator entries := by
  simp [filesOf, h, hpath]

theorem continuation_cons_of_continues (h : continues e = true) :
    continuation (e :: entries) = contentOf e ++ continuation entries := by
  simp [continuation, h]

theorem continuation_cons_of_named (h : continues e = false) : continuation (e :: entries) = [] := by
  simp [continuation, h]

theorem addEntries_cons_eq_ok_iff :
    (addEntries generator started b (e :: entries)).1 = .ok () ↔
      ∃ b₁, addEntry generator started b e = .ok b₁ ∧
        (addEntries generator true b₁ entries).1 = .ok () := by
  rw [addEntries]
  cases addEntry generator started b e <;> simp

theorem addEntries_cons (h : addEntry generator started b e = .ok b') :
    addEntries generator started b (e :: entries) = addEntries generator true b' entries := by
  rw [addEntries, h]

/-- Entries are all added if they are in order and their files clash with nothing. -/
theorem addEntries_eq_ok_iff (h : b.Indexed) :
    (addEntries generator started b entries).1 = .ok () ↔
      InOrder started entries ∧ Apart (b.files ++ filesOf generator entries) := by
  -- each entry either leaves all paths as they are or adds the path of the next file
  induction entries generalizing b started with
  | nil => simpa [addEntries, InOrder, filesOf] using h.apart_files
  | cons e entries ih =>
    rw [addEntries_cons_eq_ok_iff, inOrder_cons]
    cases hcontinues : continues e with
    | true =>
      have hapart : Apart ((b.appendToLast (contentOf e)).files ++ filesOf generator entries) ↔
          Apart (b.files ++ filesOf generator (e :: entries)) := by
        rw [filesOf_cons_of_continues hcontinues]
        exact apart_iff_of_paths (by simp [paths_appendToLast])
      have hstep : ∀ b₁, addEntry generator started b e = .ok b₁ ↔
          IsSound e ∧ started = true ∧ b₁ = b.appendToLast (contentOf e) := by
        simp [addEntry_eq_ok_iff, IsSound, hcontinues]
      have hrest := @ih _ true (h.appendToLast (contentOf e))
      simp [hstep, hrest, hapart, and_assoc]
    | false =>
      constructor
      · rintro ⟨b₁, hadd, hrest⟩
        obtain ⟨hpoint, ⟨hc, -⟩ | ⟨-, path, hpath, -, rfl⟩⟩ := addEntry_eq_ok_iff.mp hadd
        · simp [hcontinues] at hc
        obtain ⟨horder, hapart⟩ := (ih (h.addEntry hadd)).mp hrest
        refine ⟨⟨⟨hpoint, fun _ => by simp [hpath]⟩, by simp, horder⟩, ?_⟩
        rw [filesOf_cons_of_named hcontinues hpath]
        exact (apart_iff_of_paths (by simp [files_push])).mp hapart
      · rintro ⟨⟨⟨hpoint, hname⟩, -, horder⟩, hapart⟩
        obtain ⟨path, hpath⟩ := Option.isSome_iff_exists.mp (hname hcontinues)
        rw [filesOf_cons_of_named hcontinues hpath] at hapart
        have hfree : b.overlappingOwner? path = none := by
          have hfile := fun f hf => (List.pairwise_append.mp hapart).2.2 f hf _ List.mem_cons_self
          exact h.overlappingOwner?_eq_none_iff.mpr hfile
        have hadd : addEntry generator started b e = .ok (b.push ⟨path, contentOf e, generator⟩) :=
          addEntry_eq_ok_iff.mpr ⟨hpoint, .inr ⟨hcontinues, path, hpath, hfree, rfl⟩⟩
        refine ⟨_, hadd, (ih (h.addEntry hadd)).mpr ⟨horder, ?_⟩⟩
        exact (apart_iff_of_paths (by simp [files_push])).mp hapart

/-- Entries that are all added continue the last file and then add their own. -/
theorem files_addEntries (h : (addEntries generator started b entries).1 = .ok ()) :
    (addEntries generator started b entries).2.files =
      (b.appendToLast (continuation entries)).files ++ filesOf generator entries := by
  induction entries generalizing b started with
  | nil => simp [addEntries, continuation, filesOf, files_appendToLast_nil]
  | cons e entries ih =>
    obtain ⟨b₁, hadd, hrest⟩ := addEntries_cons_eq_ok_iff.mp h
    rw [addEntries_cons hadd, ih hrest]
    obtain ⟨-, ⟨hcontinues, -, rfl⟩ | ⟨hcontinues, path, hpath, -, rfl⟩⟩ :=
      addEntry_eq_ok_iff.mp hadd
    · rw [files_appendToLast_twice, continuation_cons_of_continues hcontinues,
        filesOf_cons_of_continues hcontinues]
    · rw [files_appendToLast _ files_push, continuation_cons_of_named hcontinues,
        files_appendToLast_nil, filesOf_cons_of_named hcontinues hpath]
      simp

/-- An answer without an error whose entries are in order. -/
def IsSoundAnswer (r : Plugin.Response) : Prop := textOf r.error = "" ∧ InOrder false r.files

/-- An answer is accepted if it is sound and its files clash with nothing. -/
theorem add_eq_ok_iff (h : b.Indexed) (generator : String) (r : Plugin.Response) :
    (b.add generator r).1 = .ok () ↔
      IsSoundAnswer r ∧ Apart (b.files ++ filesOf generator r.files) := by
  rw [add, IsSoundAnswer]
  by_cases herror : textOf r.error = ""
  · rw [if_neg (by simpa using herror), addEntries_eq_ok_iff h]
    simp [herror]
  · simp [herror]

/-- An answer that is accepted adds its files at the end. -/
theorem files_add (h : (b.add generator r).1 = .ok ()) :
    (b.add generator r).2.files = b.files ++ filesOf generator r.files := by
  rw [add] at h ⊢
  split_ifs at h ⊢ with herror
  rw [files_addEntries h]
  have hstart : continuation r.files = [] := by
    cases hfiles : r.files with
    | nil => rfl
    | cons e entries =>
      rw [hfiles, addEntries_cons_eq_ok_iff] at h
      obtain ⟨b₁, hadd, -⟩ := h
      obtain ⟨-, ⟨-, hstarted, -⟩ | ⟨hnamed, -⟩⟩ := addEntry_eq_ok_iff.mp hadd
      · cases hstarted
      · exact continuation_cons_of_named hnamed
  rw [hstart, files_appendToLast_nil]

end Batch

end ProtoForge.Generation
