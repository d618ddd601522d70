import ProtoForge.Proofs.Files.Operations
import ProtoForge.Proofs.Files.Steps

/-!
# Scratch files

A scratch file gets the first numbered name that its directory does not have.
There are more numbers than entries, so such a name always exists.
-/
namespace ProtoForge.Files

/-- A name that scratch files with a given stem may have. -/
def IsScratchName (stem s : String) : Prop := ∃ n, s = stem ++ Disk.sixDigits n

namespace Disk

variable {d d' : Disk} {dir p : Path} {l k : Location} {stem s : String} {b : Bytes}

theorem toList_sixDigits (n : ℕ) :
    (sixDigits n).toList =
      List.replicate (6 - (Nat.toDigits 10 n).length) '0' ++ Nat.toDigits 10 n := by
  have htext : (toString n).toList = Nat.toDigits 10 n := by simp
  simp only [sixDigits, htext, String.toList_ofList]

theorem sixDigits_injective : Function.Injective sixDigits := by
  intro m n h
  have hvalue : ∀ k, Nat.ofDigitChars 10 (sixDigits k).toList 0 = k := by
    intro k
    rw [toList_sixDigits, Nat.ofDigitChars_append, Nat.ofDigitChars_replicate_zero, Nat.mul_zero,
      Nat.ofDigitChars_ten_toDigits]
  rw [← hvalue m, h, hvalue n]

theorem isDigit_of_mem_sixDigits {c : Char} {n : ℕ} (h : c ∈ (sixDigits n).toList) :
    c.isDigit = true := by
  rw [toList_sixDigits, List.mem_append] at h
  rcases h with h | h
  · rw [List.eq_of_mem_replicate h]
    rfl
  · exact Nat.isDigit_of_mem_toDigits (by decide) (by decide) h

theorem not_mem_sixDigits (n : ℕ) : '/' ∉ (sixDigits n).toList :=
  fun h => absurd (isDigit_of_mem_sixDigits h) (by decide)

theorem name_ne_empty (stem : String) (n : ℕ) : stem ++ sixDigits n ≠ "" := by
  intro h
  have hlist := congrArg String.toList h
  rw [String.toList_append, toList_sixDigits] at hlist
  simp at hlist

/-- What is there stands among the entries. -/
theorem mem_entries_of_isSome (hl : l ≠ []) (h : (d.get? l).isSome) :
    l ∈ d.entries.map Prod.fst := by
  rw [get?, if_neg hl] at h
  by_contra hnot
  rw [List.lookup_eq_none_iff.mpr] at h
  · simp at h
  · intro x hx
    have hne : l ≠ x.1 := by
      rintro rfl
      exact hnot (List.mem_map_of_mem hx)
    simpa using hne

/-- The name that is chosen has a number up to that of the entries, and its directory does not
have it. -/
theorem freshName_spec (d : Disk) (l : Location) (stem : String) :
    (∃ n ≤ d.entries.length, d.freshName l stem = stem ++ sixDigits n) ∧
      d.get? (l ++ [d.freshName l stem]) = none := by
  set names := (List.range (d.entries.length + 1)).map fun n => stem ++ sixDigits n with hnames
  cases hfind : names.find? fun s => (d.get? (l ++ [s])).isNone with
  | some s =>
    have hs : d.freshName l stem = s := by simp [freshName, ← hnames, hfind]
    obtain ⟨n, hn, hname⟩ := List.mem_map.mp (List.mem_of_find?_eq_some hfind)
    rw [hs]
    exact ⟨⟨n, Nat.le_of_lt_succ (List.mem_range.mp hn), hname.symm⟩,
      by simpa using List.find?_some hfind⟩
  | none =>
    -- all candidates would be entries, of which there are fewer
    have hall : ∀ s ∈ names, (d.get? (l ++ [s])).isSome := by
      intro s hs
      simpa [Option.isSome_iff_ne_none] using List.find?_eq_none.mp hfind s hs
    have hinj : Function.Injective fun n => l ++ [stem ++ sixDigits n] := by
      intro m n h
      exact sixDigits_injective (by simpa using h)
    have hsub : (List.range (d.entries.length + 1)).map (fun n => l ++ [stem ++ sixDigits n]) ⊆
        d.entries.map Prod.fst := by
      intro k hk
      obtain ⟨n, hn, rfl⟩ := List.mem_map.mp hk
      refine mem_entries_of_isSome (by simp) (hall _ ?_)
      exact List.mem_map_of_mem hn
    have hle := ((List.nodup_range.map hinj).subperm hsub).length_le
    simp at hle

/-- The name that is chosen has the first number that is free. -/
theorem freshName_eq {n : ℕ} (hn : n ≤ d.entries.length)
    (hfree : d.get? (l ++ [stem ++ sixDigits n]) = none)
    (hbefore : ∀ i < n, d.get? (l ++ [stem ++ sixDigits i]) ≠ none) :
    d.freshName l stem = stem ++ sixDigits n := by
  have hfind : (List.range (d.entries.length + 1)).find?
      (fun i => (d.get? (l ++ [stem ++ sixDigits i])).isNone) = some n := by
    rw [List.find?_range_eq_some]
    refine ⟨by simp [hfree], by simpa using Nat.lt_succ_of_le hn, fun i hi => ?_⟩
    simpa [Option.isSome_iff_ne_none] using hbefore i hi
  simp only [freshName, List.find?_map, Function.comp_def, hfind]
  rfl

theorem startOf_getLast? (base : Location) (text : String) :
    (startOf base text).2.getLast? = (Path.pieces text).getLast? := by
  rw [startOf]
  split
  · rename_i heq
    rw [heq, List.getLast?_cons_cons]
  · rfl

/-- A path that was joined with a name gives that name to what it names, without a slash. -/
theorem place_join_name (hslash : '/' ∉ s.toList) (hne : s ≠ "")
    {parent : Location} {t : String} {slash : Bool}
    (h : d.place (p.join ⟨s⟩) = .ok ⟨parent, .name t, slash⟩) : t = s ∧ slash = false := by
  obtain ⟨-, before, ⟨n, hsteps, rfl⟩, -⟩ := place_eq_name.mp h
  obtain ⟨more, hpieces⟩ := Path.pieces_join_name p hslash
  have hlast := startOf_getLast? d.workingDirectory (p.join ⟨s⟩).text
  rw [hsteps, hpieces] at hlast
  cases n with
  | zero => exact ⟨by simpa using hlast, rfl⟩
  | succ n =>
    rw [List.replicate_succ', ← List.cons_append, ← List.append_assoc, List.getLast?_concat,
      List.getLast?_concat] at hlast
    exact absurd (Option.some.inj hlast).symm hne

end Disk

variable {d d' : Disk} {dir p : Path} {l : Location} {stem : String} {b : Bytes}

theorem outcome_makeScratch (dir : Path) (stem : String) (b : Bytes) (d : Disk) :
    outcome (makeScratch dir stem b) d =
      match d.locate dir true with
      | .error e => (.error e, d)
      | .ok l =>
          let p := (d.absolutize dir).join ⟨d.freshName l stem⟩
          match d.newEntry p with
          | .error e => (.error (.creating p.text e), d)
          | .ok new => (.ok p, d.put new (.file (.bytes b) scratchMode)) := by
  rw [makeScratch, outcome_inspect_bind]
  cases d.locate dir true with
  | error e => rfl
  | ok l =>
    dsimp only
    rw [outcome_bind, outcome_get]
    dsimp only
    rw [outcome_inspect_bind]
    cases d.newEntry ((d.absolutize dir).join ⟨d.freshName l stem⟩) <;> rfl

/-- A scratch file that cannot be made leaves nothing. -/
theorem makeScratch_error {e : Fault} (h : outcome (makeScratch dir stem b) d = (.error e, d')) :
    d' = d := by
  rw [outcome_makeScratch] at h
  split at h
  · exact (Prod.mk.inj h).2.symm
  · dsimp only at h
    split at h
    · exact (Prod.mk.inj h).2.symm
    · simp at h

/-- A scratch file is put where nothing was, under a numbered name, and is all that changes. -/
theorem makeScratch_ok (hstem : '/' ∉ stem.toList)
    (h : outcome (makeScratch dir stem b) d = (.ok p, d')) :
    ∃ parent s, IsScratchName stem s ∧ d.Names p (parent ++ [s]) false ∧
      d.get? (parent ++ [s]) = none ∧
      d' = d.put (parent ++ [s]) (.file (.bytes b) scratchMode) := by
  rw [outcome_makeScratch] at h
  split at h
  · simp at h
  · rename_i l hl
    dsimp only at h
    split at h
    · simp at h
    · rename_i new hnew
      obtain ⟨hp, rfl⟩ := Prod.mk.inj h
      obtain rfl := Except.ok.inj hp
      obtain ⟨⟨slash, parent, s, hplace, hsize, rfl⟩, hnone⟩ := Disk.newEntry_eq_ok_iff.mp hnew
      obtain ⟨n, -, hn⟩ := (Disk.freshName_spec d l stem).1
      have hchars : '/' ∉ (d.freshName l stem).toList := by
        rw [hn, String.toList_append, List.mem_append]
        exact fun hmem => hmem.elim hstem (Disk.not_mem_sixDigits n)
      obtain ⟨rfl, rfl⟩ := Disk.place_join_name hchars (hn ▸ Disk.name_ne_empty stem n) hplace
      exact ⟨parent, _, ⟨n, hn⟩, ⟨parent, _, hplace, hsize, rfl⟩, hnone, rfl⟩

end ProtoForge.Files
