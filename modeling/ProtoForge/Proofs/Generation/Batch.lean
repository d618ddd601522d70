import ProtoForge.Generation.Batch
import ProtoForge.Proofs.Generation.OutputPath

/-!
# Consistent batches

A batch is one list of files with two indexes. However answers are added, and
wherever adding one stops, the indexes say what the list says, no two files
share a path and no file lies where another one needs a directory.
-/
namespace ProtoForge.Generation.Batch

/-- The paths of a batch do not clash, and its indexes answer for its files. -/
structure Indexed (b : Batch) : Prop where
  normal : ∀ f ∈ b.files, IsNormal f.path
  distinct : (b.files.map (·.path)).Nodup
  apart : ∀ f ∈ b.files, ∀ g ∈ b.files, ¬ LiesBelow f.path g.path
  owners : ∀ path generator, b.owners.lookup path = some generator ↔
    ∃ f ∈ b.files, f.path = path ∧ f.generator = generator
  directories : ∀ dir, b.directories.lookup dir =
    (b.files.find? fun f => LiesBelow dir f.path).map (·.generator)

/-- The batch after answers of several generators were added, of which some may have stopped. -/
def afterAdds (adds : List (String × Plugin.Response)) : Batch :=
  adds.foldl (fun b a => (b.add a.1 a.2).2) .empty

variable {b b' : Batch} {path dir generator : String} {file last : GeneratedFile}
  {content : Bytes} {dirs : List String} {directories : List (String × String)}

theorem indexed_empty : Batch.empty.Indexed where
  normal := by simp [empty]
  distinct := by simp [empty]
  apart := by simp [empty]
  owners := by simp [empty]
  directories := by simp [empty]

/-- Claiming directories keeps earlier claims. -/
theorem lookup_claimAll (generator dir : String) (dirs : List String)
    (directories : List (String × String)) :
    (dirs.foldl (claim generator) directories).lookup dir =
      (directories.lookup dir).or (if dir ∈ dirs then some generator else none) := by
  induction dirs generalizing directories with
  | nil => simp
  | cons d dirs ih =>
    rw [List.foldl_cons, ih, claim]
    by_cases hd : (directories.lookup d).isSome
    · rw [if_pos hd]
      by_cases hdir : dir = d
      · obtain ⟨g, hg⟩ := Option.isSome_iff_exists.mp hd
        simp [hdir, hg]
      · simp [hdir]
    · rw [if_neg hd, List.lookup_append]
      have hnone : directories.lookup d = none := Option.not_isSome_iff_eq_none.mp hd
      by_cases hdir : dir = d
      · simp [hdir, hnone]
      · have hne : (dir == d) = false := by simpa using hdir
        simp [hdir, List.lookup_cons, hne]

/-- A path that nobody claims clashes with no file. -/
theorem Indexed.free (h : b.Indexed) (hnone : b.overlappingOwner? path = none) :
    ∀ f ∈ b.files, f.path ≠ path ∧ ¬ LiesBelow f.path path ∧ ¬ LiesBelow path f.path := by
  rw [overlappingOwner?, Option.or_eq_none_iff, Option.or_eq_none_iff] at hnone
  obtain ⟨hsame, habove, hbelow⟩ := hnone
  intro f hf
  have howner : b.owners.lookup f.path = some f.generator := (h.owners _ _).mpr ⟨f, hf, rfl, rfl⟩
  refine ⟨?_, fun hlies => ?_, fun hlies => ?_⟩
  · rintro rfl
    simp [howner] at hsame
  · have hnone := List.findSome?_eq_none_iff.mp habove f.path (mem_parentDirectories.mpr hlies)
    simp [howner] at hnone
  · rw [h.directories, Option.map_eq_none_iff, List.find?_eq_none] at hbelow
    exact hbelow f hf (by simpa using hlies)

/-- Adding a file at a path in normal form that nobody claims. -/
theorem Indexed.push (h : b.Indexed) (hnormal : IsNormal file.path)
    (hnone : b.overlappingOwner? file.path = none) : (b.push file).Indexed := by
  have hfree := h.free hnone
  constructor
  · intro f hf
    rcases List.mem_append.mp hf with hf | hf
    · exact h.normal f hf
    · exact List.mem_singleton.mp hf ▸ hnormal
  · rw [Batch.push, List.map_append, List.nodup_append]
    refine ⟨h.distinct, List.nodup_singleton _, ?_⟩
    intro p hp q hq
    obtain ⟨f, hf, rfl⟩ := List.mem_map.mp hp
    obtain rfl : q = file.path := by simpa using hq
    exact (hfree f hf).1
  · intro f hf g hg
    rcases List.mem_append.mp hf with hf | hf <;> rcases List.mem_append.mp hg with hg | hg
    · exact h.apart f hf g hg
    · exact List.mem_singleton.mp hg ▸ (hfree f hf).2.1
    · exact List.mem_singleton.mp hf ▸ (hfree g hg).2.2
    · rw [List.mem_singleton.mp hf, List.mem_singleton.mp hg]
      exact not_liesBelow_self
  · intro path generator
    rw [Batch.push, List.lookup_append, Option.or_eq_some_iff, h.owners]
    have hnew : [(file.path, file.generator)].lookup path = some generator ↔
        file.path = path ∧ file.generator = generator := by
      by_cases hp : path = file.path
      · simp [hp]
      · have hne : (path == file.path) = false := by simpa using hp
        simp [List.lookup_cons, hne, Ne.symm hp]
    have hsplit : (∃ f ∈ b.files ++ [file], f.path = path ∧ f.generator = generator) ↔
        (∃ f ∈ b.files, f.path = path ∧ f.generator = generator) ∨
          (file.path = path ∧ file.generator = generator) := by
      simp [or_and_right, exists_or]
    rw [hnew, hsplit]
    refine or_congr_right (and_iff_right_of_imp ?_)
    rintro ⟨rfl, -⟩
    rw [overlappingOwner?, Option.or_eq_none_iff] at hnone
    exact hnone.1
  · intro dir
    rw [Batch.push, lookup_claimAll, h.directories, List.find?_append, Option.map_or]
    by_cases hlies : LiesBelow dir file.path
    · simp [mem_parentDirectories, hlies]
    · simp [mem_parentDirectories, hlies]

/-- Content that is added to the last file does not change what the batch says of paths. -/
theorem Indexed.appendToLast (h : b.Indexed) (content : Bytes) :
    (b.appendToLast content).Indexed := by
  obtain ⟨files, owners, directories⟩ := b
  rw [Batch.appendToLast]
  cases hlast : files.getLast? with
  | none => exact h
  | some last =>
    obtain ⟨before, rfl⟩ := List.getLast?_eq_some_iff.mp hlast
    dsimp only
    rw [List.dropLast_concat]
    constructor
    · simpa [or_imp, forall_and] using h.normal
    · simpa using h.distinct
    · simpa [or_imp, forall_and] using h.apart
    · simpa using h.owners
    · simpa [List.find?_append, List.find?_singleton, Option.map_or] using h.directories

/-- Adding an entry keeps the indexes consistent. -/
theorem Indexed.addEntry (h : b.Indexed) {started : Bool} {e : Plugin.ResponseFile}
    (hadd : addEntry generator started b e = .ok b') : b'.Indexed := by
  rw [Batch.addEntry] at hadd
  split_ifs at hadd with hpoint hname hstarted
  · obtain rfl := Except.ok.inj hadd
    exact h.appendToLast _
  · rw [addNamed] at hadd
    cases hpath : normalizePath? (textOf e.name) with
    | none => simp [hpath] at hadd
    | some path =>
      cases hclash : b.overlappingOwner? path with
      | some first => simp [hpath, hclash] at hadd
      | none =>
        obtain rfl : b.push ⟨path, _, generator⟩ = b' := by simpa [hpath, hclash] using hadd
        exact h.push (isNormal_of_normalizePath hpath) hclash

/-- Adding entries keeps the indexes consistent, wherever it stops. -/
theorem Indexed.addEntries (h : b.Indexed) (generator : String) (started : Bool)
    (entries : List Plugin.ResponseFile) : (addEntries generator started b entries).2.Indexed := by
  induction entries generalizing b started with
  | nil => exact h
  | cons e entries ih =>
    rw [Batch.addEntries]
    cases hadd : Batch.addEntry generator started b e with
    | error f => exact h
    | ok b' => exact ih (h.addEntry hadd) true

theorem Indexed.add (h : b.Indexed) (generator : String) (r : Plugin.Response) :
    (b.add generator r).2.Indexed := by
  rw [Batch.add]
  split_ifs with herror
  · exact h
  · exact h.addEntries generator false r.files

/-- However answers are added to a batch, and whichever of them cannot be added in full, its
indexes are consistent. -/
theorem afterAdds_indexed (adds : List (String × Plugin.Response)) : (afterAdds adds).Indexed := by
  refine List.foldlRecOn adds _ indexed_empty fun b hb a ha => ?_
  exact hb.add a.1 a.2

end ProtoForge.Generation.Batch
