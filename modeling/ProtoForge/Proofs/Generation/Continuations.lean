import ProtoForge.Proofs.Generation.Conflicts

/-!
# Answers in groups

The entries of an answer come in groups, each a named entry with the unnamed
ones after it, and each group is one file. Adding an answer leaves the files
before it as they are. It stops at the first entry that cannot be added and
has then added what the entries before that one give.
-/
namespace ProtoForge.Generation.Batch

variable {b b' : Batch} {generator : String} {started : Bool} {r : Plugin.Response}
  {e : Plugin.ResponseFile} {entries before : List Plugin.ResponseFile} {fault : Failure}

/-- Entries and the files that they are: each named entry goes on in the unnamed ones up to the
next. -/
inductive Folded (generator : String) : List Plugin.ResponseFile → List GeneratedFile → Prop
  | nil : Folded generator [] []
  | cons {e : Plugin.ResponseFile} {more rest : List Plugin.ResponseFile} {path : String}
      {files : List GeneratedFile} (hnamed : textOf e.name ≠ "")
      (hpath : normalizePath? (textOf e.name) = some path)
      (hmore : ∀ c ∈ more, textOf c.name = "") (hrest : Folded generator rest files) :
      Folded generator (e :: more ++ rest)
        (⟨path, contentOf e ++ more.flatMap contentOf, generator⟩ :: files)

/-- Why an entry cannot be added to a batch, after the entries before it in the same answer. -/
inductive Offends (b : Batch) (generator : String) (before : List Plugin.ResponseFile)
    (e : Plugin.ResponseFile) : Failure → Prop
  | insertionPoint (hpoint : textOf e.insertionPoint ≠ "") :
      Offends b generator before e
        (.generatorFailed generator (.insertionPoint (textOf e.insertionPoint)))
  | stray (hpoint : textOf e.insertionPoint = "") (hname : textOf e.name = "")
      (hbefore : before = []) :
      Offends b generator before e (.generatorFailed generator .strayContinuation)
  | invalidPath (hpoint : textOf e.insertionPoint = "") (hname : textOf e.name ≠ "")
      (hpath : normalizePath? (textOf e.name) = none) :
      Offends b generator before e (.invalidOutputPath generator (textOf e.name))
  | conflict {path : String} {f : GeneratedFile} (hpoint : textOf e.insertionPoint = "")
      (hname : textOf e.name ≠ "") (hpath : normalizePath? (textOf e.name) = some path)
      (hfirst : b.earliestOverlap? path = some f) :
      Offends b generator before e (.outputConflict path f.generator generator)

/-- Sound entries are folded into files, those that come before the first named one apart. -/
theorem folded_filesOf (generator : String) (h : ∀ e ∈ entries, IsSound e) :
    Folded generator (entries.dropWhile continues) (filesOf generator entries) := by
  induction entries with
  | nil => exact .nil
  | cons e entries ih =>
    obtain ⟨⟨-, hsound⟩, hrest⟩ := List.forall_mem_cons.mp h
    cases hcontinues : continues e with
    | true =>
      rw [List.dropWhile_cons_of_pos hcontinues, filesOf_cons_of_continues hcontinues]
      exact ih hrest
    | false =>
      obtain ⟨path, hpath⟩ := Option.isSome_iff_exists.mp (hsound hcontinues)
      rw [List.dropWhile_cons_of_neg (by simp [hcontinues]), filesOf_cons_of_named hcontinues hpath]
      -- the unnamed entries after this one belong to its group
      have hgroup : e :: entries =
          e :: entries.takeWhile continues ++ entries.dropWhile continues := by simp
      rw [hgroup]
      refine .cons (by simpa [continues] using hcontinues) hpath (fun c hc => ?_) (ih hrest)
      simpa [continues] using List.mem_takeWhile_imp hc

/-- The entries of a sound answer are folded into its files. -/
theorem IsSoundAnswer.folded (h : IsSoundAnswer r) :
    Folded generator r.files (filesOf generator r.files) := by
  obtain ⟨-, hsound, hfirst⟩ := h
  have hdrop : r.files.dropWhile continues = r.files := by
    cases hfiles : r.files with
    | nil => rfl
    | cons e entries =>
      have hnamed : continues e = false := hfirst rfl e (by simp [hfiles])
      exact List.dropWhile_cons_of_neg (by simp [hnamed])
  have hfolded := folded_filesOf generator hsound
  rwa [hdrop] at hfolded

/-- An entry that cannot be added offends. -/
theorem Indexed.offends (h : b.Indexed)
    (hadd : Batch.addEntry generator (!before.isEmpty) b e = .error fault) :
    Offends b generator before e fault := by
  by_cases hpoint : textOf e.insertionPoint = ""
  · by_cases hname : textOf e.name = ""
    · rw [Batch.addEntry, if_neg (not_not_intro hpoint), if_pos hname] at hadd
      split_ifs at hadd with hstarted
      cases hadd
      exact .stray hpoint hname (by simpa using hstarted)
    · cases hpath : normalizePath? (textOf e.name) with
      | none =>
        rw [Batch.addEntry, if_neg (not_not_intro hpoint), if_neg hname, addNamed, hpath] at hadd
        cases hadd
        exact .invalidPath hpoint hname hpath
      | some path =>
        rw [h.addEntry_named _ _ hpoint hname hpath] at hadd
        cases hfirst : b.earliestOverlap? path with
        | none =>
          rw [hfirst] at hadd
          cases hadd
        | some f =>
          rw [hfirst] at hadd
          cases hadd
          exact .conflict hpoint hname hpath hfirst
  · rw [Batch.addEntry, if_pos hpoint] at hadd
    cases hadd
    exact .insertionPoint hpoint

/-- Adding entries stops at the first one that cannot be added, with what those before it give. -/
theorem addEntries_eq_error (h : (addEntries generator started b entries).1 = .error fault) :
    ∃ before e rest b', entries = before ++ e :: rest ∧
      addEntries generator started b before = (.ok (), b') ∧
      addEntry generator (started || !before.isEmpty) b' e = .error fault ∧
      (addEntries generator started b entries).2 = b' := by
  induction entries generalizing started b with
  | nil => cases h
  | cons e entries ih =>
    rw [addEntries] at h ⊢
    cases hadd : addEntry generator started b e with
    | error fault' =>
      rw [hadd] at h
      obtain rfl : fault' = fault := Except.error.inj h
      exact ⟨[], e, entries, b, rfl, rfl, by simpa using hadd, rfl⟩
    | ok b₁ =>
      rw [hadd] at h
      obtain ⟨before, e', rest, b', rfl, hbefore, hstop, hbatch⟩ := ih h
      refine ⟨e :: before, e', rest, b', rfl, ?_, by simpa using hstop, hbatch⟩
      rw [addEntries_cons hadd, hbefore]

/-- An answer that is refused reports an error itself, and then nothing is added, or it has a first
entry that cannot be added. -/
theorem Indexed.add_eq_error (h : b.Indexed) (hadd : (b.add generator r).1 = .error fault) :
    (textOf r.error ≠ "" ∧ fault = .generatorFailed generator (.reported (textOf r.error)) ∧
        (b.add generator r).2 = b) ∨
      ∃ before e rest, r.files = before ++ e :: rest ∧
        b.add generator { r with files := before } = (.ok (), (b.add generator r).2) ∧
        Offends (b.add generator r).2 generator before e fault := by
  by_cases herror : textOf r.error = ""
  · right
    have hentries : ∀ files, b.add generator { r with files := files } =
        Batch.addEntries generator false b files := fun files => if_neg (not_not_intro herror)
    have hwhole : b.add generator r = Batch.addEntries generator false b r.files := hentries r.files
    rw [hwhole] at hadd ⊢
    obtain ⟨before, e, rest, b', hfiles, hbefore, hstop, rfl⟩ := addEntries_eq_error hadd
    rw [Bool.false_or] at hstop
    have hindexed := h.addEntries generator false r.files
    exact ⟨before, e, rest, hfiles, (hentries before).trans hbefore, hindexed.offends hstop⟩
  · left
    have hwhole : b.add generator r =
        (.error (.generatorFailed generator (.reported (textOf r.error))), b) := if_pos herror
    rw [hwhole] at hadd ⊢
    exact ⟨herror, (Except.error.inj hadd).symm, rfl⟩

/-- Whatever was added before, adding an answer keeps the files that were there, unchanged and in
front. An answer that is accepted adds one file for each group of its entries, in order. One that
is refused either reports an error and adds nothing, or has a first entry that cannot be added, and
the batch is then as if the answer ended before that entry. -/
theorem add_folds (adds : List (String × Plugin.Response)) (generator : String)
    (r : Plugin.Response) :
    (afterAdds adds).files <+: ((afterAdds adds).add generator r).2.files ∧
      (((afterAdds adds).add generator r).1 = .ok () →
        ∃ files, Folded generator r.files files ∧
          ((afterAdds adds).add generator r).2.files = (afterAdds adds).files ++ files) ∧
      ∀ fault, ((afterAdds adds).add generator r).1 = .error fault →
        (textOf r.error ≠ "" ∧ fault = .generatorFailed generator (.reported (textOf r.error)) ∧
            ((afterAdds adds).add generator r).2 = afterAdds adds) ∨
          ∃ before e rest, r.files = before ++ e :: rest ∧
            (afterAdds adds).add generator { r with files := before } =
              (.ok (), ((afterAdds adds).add generator r).2) ∧
            Offends ((afterAdds adds).add generator r).2 generator before e fault := by
  have hindexed := afterAdds_indexed adds
  refine ⟨?_, fun hok => ?_, fun fault hadd => hindexed.add_eq_error hadd⟩
  · cases hresult : ((afterAdds adds).add generator r).1 with
    | ok u =>
      rw [files_add hresult]
      exact List.prefix_append _ _
    | error fault =>
      rcases hindexed.add_eq_error hresult with ⟨-, -, hsame⟩ | ⟨before, e, rest, -, hcut, -⟩
      · rw [hsame]
      · have hfiles := files_add (congrArg Prod.fst hcut)
        rw [hcut] at hfiles
        rw [hfiles]
        exact List.prefix_append _ _
  · obtain ⟨hsound, -⟩ := (add_eq_ok_iff hindexed generator r).mp hok
    exact ⟨_, hsound.folded, files_add hok⟩

/-- An answer with a file in two parts. -/
def twoPartAnswer : Plugin.Response :=
  { files := [{ name := some "a", content := some "1" }, { content := some "2" },
      { name := some "b" }] }

/-- An answer that would leave the output directory with its second file. -/
def climbingAnswer : Plugin.Response :=
  { files := [{ name := some "a", content := some "1" }, { content := some "2" },
      { name := some "../b" }] }

/-- The first one is folded into two files, the second one stops after the file in two parts. -/
theorem two_part_answer_folds :
    ((afterAdds sharedDirectory).add "i" twoPartAnswer).1 = .ok () ∧
      (∃ files, Folded "i" twoPartAnswer.files files ∧
        ((afterAdds sharedDirectory).add "i" twoPartAnswer).2.files =
          (afterAdds sharedDirectory).files ++ files) ∧
      ((afterAdds sharedDirectory).add "i" climbingAnswer).1 =
        .error (.invalidOutputPath "i" "../b") ∧
      ∃ before e rest, climbingAnswer.files = before ++ e :: rest ∧
        (afterAdds sharedDirectory).add "i" { climbingAnswer with files := before } =
          (.ok (), ((afterAdds sharedDirectory).add "i" climbingAnswer).2) ∧
        Offends ((afterAdds sharedDirectory).add "i" climbingAnswer).2 "i" before e
          (.invalidOutputPath "i" "../b") := by
  have hok : ((afterAdds sharedDirectory).add "i" twoPartAnswer).1 = .ok () := by cbv
  have herror : ((afterAdds sharedDirectory).add "i" climbingAnswer).1 =
      .error (.invalidOutputPath "i" "../b") := by cbv
  obtain ⟨-, hfolds, -⟩ := add_folds sharedDirectory "i" twoPartAnswer
  obtain ⟨-, -, hstops⟩ := add_folds sharedDirectory "i" climbingAnswer
  refine ⟨hok, hfolds hok, herror, (hstops _ herror).resolve_left ?_⟩
  rintro ⟨hreported, -⟩
  exact hreported rfl

end ProtoForge.Generation.Batch
