import ProtoForge.Proofs.Output.Sites

/-!
# Steps up from missing directories

A path may go up again from a directory that is missing. The directories above
a target are made one by one, and a step up names none that could be made: it
leads to one that is there once the directory before it is. So a transaction
with such a target fails.
-/
namespace ProtoForge.Output

open Files

variable {d origin : Disk} {dir p q t : Path} {l : Location} {n x : String} {moves : List String}

/-- Nothing can be made at a path that ends in a step up. -/
theorem newEntry_of_up (hp : p.components.getLast? = some .up) : d.newEntry p ≠ .ok l := by
  intro hnew
  obtain ⟨⟨slash, parent, n, hplace, -, -⟩, -⟩ := Disk.newEntry_eq_ok_iff.mp hnew
  have hname := Disk.fileName?_of_place hplace
  rw [Path.fileName?, hp] at hname
  cases hname

/-- A path that goes up below a directory which is missing is among those that are to be made. -/
theorem exists_up_missing (hopens : d.Opens dir l) (hn : Path.IsOrdinary n)
    (hnone : d.get? (l ++ [n]) = none)
    (hq : q.components = dir.components ++ (n :: moves).map Path.step) (hup : ".." ∈ moves) :
    ∃ p ∈ missingDirectories d q, p.components.getLast? = some .up := by
  induction moves using List.reverseRecOn generalizing q with
  | nil => simp at hup
  | append_singleton moves x ih =>
    have hreaches : d.reaches q = false := hopens.reaches_eq_false hq hn hnone
    have hsplit : q.components = (dir.components ++ (n :: moves).map Path.step) ++ [Path.step x] := by
      rw [hq]
      simp
    obtain ⟨r, hr, hcomponents⟩ := Path.exists_parent_of_append hsplit (Path.step_ne_root x)
    rw [Site.missingDirectories_of_missing hr (by simp [hsplit]) hreaches]
    by_cases hx : x = ".."
    · exact ⟨q, by simp, by rw [hsplit, List.getLast?_concat, hx]; rfl⟩
    · obtain ⟨p, hp, hlast⟩ := ih hcomponents (by simpa [Ne.symm hx] using hup)
      exact ⟨p, List.mem_append_left _ hp, hlast⟩

/-- Directories that were made could be made. -/
theorem newEntry_of_makeEach {paths : List Path} {c c' : CommitState}
    (h : outcome (paths.forM makeNoted) c = (.ok (), c')) :
    ∀ p ∈ paths, ∃ (d : Disk) (l : Location), d.newEntry p = .ok l := by
  induction paths generalizing c with
  | nil => simp
  | cons p paths ih =>
    rw [outcome_forM_cons, outcome_bind_eq_ok] at h
    obtain ⟨_, c₁, hfirst, hrest⟩ := h
    rw [outcome_makeNoted] at hfirst
    cases hnew : c.disk.newEntry p with
    | error e => simp [hnew] at hfirst
    | ok l =>
      rintro q hq
      rcases List.mem_cons.mp hq with rfl | hq
      · exact ⟨c.disk, l, hnew⟩
      · exact ih hrest q hq

/-- What is missing above a target cannot be made when its path goes up from there. -/
theorem makeAbove_up (hopens : d.Opens dir l) (hn : Path.IsOrdinary n)
    (hnone : d.get? (l ++ [n]) = none)
    (ht : t.components = dir.components ++ (n :: moves ++ [x]).map Path.step) (hup : ".." ∈ moves)
    (j : Journal) (c : CommitState) : outcome (makeAbove t) ⟨d, j⟩ ≠ (.ok (), c) := by
  intro hmade
  rw [List.map_append, ← List.append_assoc] at ht
  obtain ⟨r, hr, hcomponents⟩ := Path.exists_parent_of_append ht (Path.step_ne_root x)
  rw [makeAbove, hr] at hmade
  dsimp only at hmade
  rw [outcome_makeMissing] at hmade
  obtain ⟨p, hp, hlast⟩ := exists_up_missing hopens hn hnone hcomponents hup
  obtain ⟨e, k, hnew⟩ := newEntry_of_makeEach hmade p hp
  exact newEntry_of_up hlast hnew

/-- Files are not written to a path that goes up from a directory which is missing. -/
theorem writeAll_up (ho : origin.Rooted) (hopens : origin.Opens dir l)
    (hn : Path.IsOrdinary n) (hplain : ¬ IsScratchName scratchStem n)
    (hnone : origin.get? (l ++ [n]) = none)
    (ht : t.components = dir.components ++ (n :: moves ++ [x]).map Path.step) (hup : ".." ∈ moves)
    (b : Bytes) (files : List (Path × Bytes)) (paths : List Path) (e : Disk) :
    outcome (writeAll ((t, b) :: files)) origin ≠ (.ok paths, e) := by
  intro hwrite
  rw [writeAll, outcome_bind_eq_ok] at hwrite
  obtain ⟨transaction, d, hstage, hcommit⟩ := hwrite
  obtain ⟨waiting, rfl, hstaged, houtputs⟩ := stageAll_recoverable (.start ho) hstage
  have hnone' : d.get? (l ++ [n]) = none := by
    rw [← hnone]
    refine hstaged.undone _ (by simp) fun hmem => ?_
    obtain ⟨w, hw, hspot⟩ := List.mem_map.mp hmem
    obtain ⟨parent, n', hn', heq⟩ := (hstaged.waits w hw).1.scratch
    obtain ⟨-, hsame⟩ := List.append_inj' (hspot.symm.trans heq) rfl
    obtain rfl : n = n' := by simpa using hsame
    exact hplain hn'
  cases waiting with
  | nil => simp at houtputs
  | cons w rest =>
    have htarget : w.pending.target = t := by
      have hfirst : w.output = (t, b) := by simpa using congrArg List.head? houtputs
      exact congrArg Prod.fst hfirst
    rw [outcome_commit, List.map_cons, outcome_placeAll_cons, place_eq, outcome_bind, htarget] at hcommit
    rcases habove : outcome (makeAbove t) ⟨d, {}⟩ with ⟨f | u, c⟩
    · rw [habove] at hcommit
      simp at hcommit
    · exact makeAbove_up (hopens.keepsWays hstaged.keepsWays) hn hnone' ht hup {} c habove

end ProtoForge.Output
