import ProtoForge.Proofs.Output.Atomicity
import Mathlib

/-!
# Files of the root

What the actions of a transaction do to a file directly below the root, where
no directory is missing and no link is passed on the way. This settles short
transactions on given disks.
-/
namespace ProtoForge.Output

open Files

/-- A name that an entry of the root can have. -/
structure IsEntryName (s : String) : Prop where
  moves : Path.isIdle s = false
  ne_up : s ≠ ".."
  no_slash : '/' ∉ s.toList
  no_nul : '\x00' ∉ s.toList
  short : Bytes.textSize s ≤ Disk.maxName

instance : DecidablePred IsEntryName := fun s =>
  decidable_of_iff (Path.isIdle s = false ∧ s ≠ ".." ∧ '/' ∉ s.toList ∧ '\x00' ∉ s.toList ∧
      Bytes.textSize s ≤ Disk.maxName)
    ⟨fun ⟨h₁, h₂, h₃, h₄, h₅⟩ => ⟨h₁, h₂, h₃, h₄, h₅⟩,
      fun h => ⟨h.moves, h.ne_up, h.no_slash, h.no_nul, h.short⟩⟩

/-- The path of an entry of the root. -/
def rootPath (s : String) : Path := ⟨"/" ++ s⟩

variable {d : Disk} {s : String} {b : Bytes} {j : Journal}

namespace IsEntryName

theorem checkText (hs : IsEntryName s) : Disk.checkText (rootPath s).text = .ok () := by
  have hnul : (rootPath s).text.contains '\x00' = false := by
    rw [Bool.eq_false_iff, ne_eq, String.contains_char_eq, decide_eq_true_iff]
    simpa [rootPath] using hs.no_nul
  have hsize : Bytes.textSize (rootPath s).text < Disk.maxPath := by
    have hcount : Bytes.textSize (rootPath s).text = 1 + Bytes.textSize s := by
      simp [Bytes.textSize, Bytes.ofText, rootPath, show '/'.utf8Size = 1 by decide]
    have hshort := hs.short
    rw [hcount]
    simp only [Disk.maxName, Disk.maxPath] at hshort ⊢
    omega
  rw [Disk.checkText, if_neg (by simp [hnul]), if_neg (by simp [rootPath]),
    if_neg (Nat.not_le.mpr hsize)]

theorem pieces (hs : IsEntryName s) : Path.pieces (rootPath s).text = ["", s] := by
  have h := Path.pieces_append "" s
  rwa [String.empty_append, Path.pieces_eq_singleton (s := "") (by decide),
    Path.pieces_eq_singleton hs.no_slash] at h

theorem startOf (hs : IsEntryName s) (base : Location) :
    Disk.startOf base (rootPath s).text = ([], [s]) := by
  rw [Disk.startOf, hs.pieces]
  rfl

theorem place (hs : IsEntryName s) (d : Disk) :
    d.place (rootPath s) = .ok ⟨[], .name s, false⟩ := by
  have hne : s ≠ "" := by rintro rfl; exact absurd hs.moves (by decide)
  have hdot : s ≠ "." := by rintro rfl; exact absurd hs.moves (by decide)
  rw [Disk.place, Disk.placeFrom, hs.checkText, hs.startOf]
  simp [hne, hdot, hs.ne_up, Disk.descend, Disk.get?, pure, Except.pure]

theorem names (hs : IsEntryName s) (d : Disk) : d.Names (rootPath s) [s] false :=
  ⟨[], s, hs.place d, hs.short, rfl⟩

/-- What following the path of an entry means at the root. -/
theorem locate_eq (hs : IsEntryName s) (d : Disk) :
    d.locate (rootPath s) true =
      match d.get? [s] with
      | none => .error .missing
      | some (.link t) =>
          d.descend (Disk.maxLinks - 1) (Disk.startOf [] t).1 (Disk.startOf [] t).2 true
      | some _ => .ok [s] := by
  have hroot : d.get? [] = some (.directory 0o755) := rfl
  rw [Disk.locate, hs.checkText, hs.startOf, Disk.ok_bind]
  dsimp only
  rw [Disk.descend, hroot]
  dsimp only
  rw [if_neg (by simp [hs.moves]), if_neg hs.ne_up, if_neg (Nat.not_lt.mpr hs.short),
    List.nil_append]
  cases hentry : d.get? [s] with
  | none => rfl
  | some x =>
    cases x with
    | file c m => simp [Disk.descend]
    | directory m => simp [Disk.descend]
    | link t => simp [Disk.maxLinks]

theorem locate_file (hs : IsEntryName s) {c : Content} {m : ℕ}
    (hfile : d.get? [s] = some (.file c m)) : d.locate (rootPath s) true = .ok [s] := by
  rw [hs.locate_eq, hfile]

theorem isFile_of_file (hs : IsEntryName s) {c : Content} {m : ℕ}
    (hfile : d.get? [s] = some (.file c m)) : d.isFile (rootPath s) = true :=
  Disk.isFile_iff.mpr ⟨[s], hs.locate_file hfile, c, m, hfile⟩

theorem isFile_of_directory (hs : IsEntryName s) (hdir : d.HasDirectory [s]) :
    d.isFile (rootPath s) = false := by
  obtain ⟨m, hm⟩ := hdir
  simp [Disk.isFile, Disk.status, hs.locate_eq, hm, Except.toOption, Entry.isFile]

theorem isFile_of_absent (hs : IsEntryName s) (hnone : d.get? [s] = none) :
    d.isFile (rootPath s) = false := by
  simp [Disk.isFile, Disk.status, hs.locate_eq, hnone, Except.toOption]

end IsEntryName

theorem locate_slash (d : Disk) (followLast : Bool) : d.locate ⟨"/"⟩ followLast = .ok [] := by
  have htext : Disk.checkText "/" = .ok () := by cbv
  have hstart : Disk.startOf d.workingDirectory "/" = ([], [""]) := rfl
  rw [Disk.locate, htext, hstart]
  simp [Disk.descend, Disk.get?, Path.isIdle]

theorem reaches_slash (d : Disk) : d.reaches ⟨"/"⟩ = true := by
  simp [Disk.reaches, Disk.status, locate_slash, Disk.get?, Except.toOption, pure, Except.pure]

theorem isDirectory_slash (d : Disk) : d.isDirectory ⟨"/"⟩ = true := by
  simp [Disk.isDirectory, Disk.status, locate_slash, Disk.get?, Except.toOption, pure, Except.pure,
    Entry.isDirectory]

theorem ancestors_slash : (Path.mk "/").ancestors = [⟨"/"⟩] := by decide

namespace IsEntryName

theorem split (hs : IsEntryName s) : (rootPath s).split = (.root, [s]) := by
  rw [Path.split, hs.pieces]
  rfl

theorem parent? (hs : IsEntryName s) : (rootPath s).parent? = some ⟨"/"⟩ := by
  have htrim : Path.trimEnd [s] = [s] := by simp [Path.trimEnd, hs.moves]
  rw [Path.parent?, hs.split]
  dsimp only
  rw [htrim]
  rfl

theorem components (hs : IsEntryName s) : (rootPath s).components = [.root, .name s] := by
  rw [Path.components_eq, hs.split]
  simp [PathStart.components, Path.moving, hs.moves, Path.step, hs.ne_up]

theorem isOrdinary (hs : IsEntryName s) (hscratch : s.startsWith scratchStem = false) :
    IsOrdinary (rootPath s) := by
  refine isOrdinary_of_startsWith ?_ hscratch
  rw [Path.fileName?, hs.components]
  rfl

theorem unmentioned (hs : IsEntryName s) (hscratch : s.startsWith scratchStem = false) :
    Unmentioned (rootPath s) := by
  intro t ht
  rw [hs.split, Path.moving_cons_of_not_idle hs.moves, Path.moving_nil,
    List.mem_singleton] at ht
  rw [ht]
  exact not_isScratchName_of_startsWith hscratch

/-- A link to an entry of its own directory. -/
theorem unmentioned_text (hs : IsEntryName s) (hscratch : s.startsWith scratchStem = false) :
    Unmentioned ⟨s⟩ := by
  have hdot : s ≠ "." := by
    rintro rfl
    exact absurd hs.moves (by decide)
  have hsplit : Path.split ⟨s⟩ = (.plain, [s]) := by
    rw [Path.split, Path.pieces_eq_singleton hs.no_slash]
    split <;> simp_all
  intro t ht
  rw [hsplit, Path.moving_cons_of_not_idle hs.moves, Path.moving_nil, List.mem_singleton] at ht
  rw [ht]
  exact not_isScratchName_of_startsWith hscratch

theorem ancestors (hs : IsEntryName s) : (rootPath s).ancestors = [rootPath s, ⟨"/"⟩] := by
  rw [Path.ancestors, hs.components]
  simp only [List.length_cons, List.length_nil, Path.parentsWithin, hs.parent?]
  rfl

theorem nearestDirectory (hs : IsEntryName s) (d : Disk) :
    nearestDirectory d (rootPath s) = ⟨"/"⟩ := by
  simp [Output.nearestDirectory, hs.ancestors, isDirectory_slash]

/-- The path of a new entry of the root. -/
theorem join (hs : IsEntryName s) (d : Disk) : (d.absolutize ⟨"/"⟩).join ⟨s⟩ = rootPath s := by
  have habsolute : d.absolutize ⟨"/"⟩ = ⟨"/"⟩ := if_pos (by cbv)
  rw [habsolute, Path.join, if_neg (by simp [Path.isAbsolute_eq_false hs.no_slash]),
    if_pos (by cbv)]
  rfl

end IsEntryName

/-- The scratch file for a file of the root is one of the root. -/
theorem outcome_scratchFor_root (hs : IsEntryName s) {n : String}
    (hfresh : d.freshName [] scratchStem = n) (hn : IsEntryName n) (b : Bytes) :
    outcome (scratchFor (rootPath s) b) d = (.ok (rootPath n), d.put [n] (scratchEntry b)) := by
  have hfree : d.get? [n] = none := hfresh ▸ (d.freshName_spec [] scratchStem).2
  have hnew : d.newEntry (rootPath n) = .ok [n] :=
    Disk.newEntry_eq_ok_iff.mpr ⟨⟨false, hn.names d⟩, hfree⟩
  rw [scratchFor, outcome_bind, outcome_get]
  dsimp only
  rw [hs.nearestDirectory, outcome_makeScratch, locate_slash]
  dsimp only
  rw [hfresh, hn.join, hnew]
  rfl

theorem outcome_stage_root (t : Transaction) (hs : IsEntryName s) {n : String}
    (hfresh : d.freshName [] scratchStem = n) (hn : IsEntryName n) (b : Bytes) :
    outcome (t.stage (rootPath s) b) d =
      (.ok ⟨t.pending ++ [⟨rootPath s, rootPath n⟩]⟩, d.put [n] (scratchEntry b)) := by
  rw [Transaction.stage, outcome_bind, outcome_orFail, outcome_scratchFor_root hs hfresh hn]
  rfl

/-- No directory is missing above a file of the root. -/
theorem outcome_makeAbove_root (hs : IsEntryName s) (d : Disk) (j : Journal) :
    outcome (makeAbove (rootPath s)) ⟨d, j⟩ = (.ok (), ⟨d, j⟩) := by
  have hmissing : missingDirectories d ⟨"/"⟩ = [] := by
    simp [missingDirectories, ancestors_slash, reaches_slash]
  rw [makeAbove, hs.parent?]
  dsimp only
  rw [outcome_makeMissing, hmissing]
  rfl

/-- A staged file of the root takes a place where no file is in the way. -/
theorem outcome_place_root (hs : IsEntryName s) {n : String} (hn : IsEntryName n) (hne : n ≠ s)
    (hfile : d.isFile (rootPath s) = false) (hholds : d.get? [n] = some (scratchEntry b))
    (hnot : ¬ d.HasDirectory [s]) :
    outcome (place ⟨rootPath s, rootPath n⟩) ⟨d, j⟩ =
      (.ok (), ⟨(d.erase [n]).put [s] (scratchEntry b),
        { j with placed := ⟨rootPath s, none⟩ :: j.placed }⟩) := by
  rw [place_eq, outcome_bind, outcome_makeAbove_root hs]
  dsimp only
  rw [outcome_settle, outcome_takeBackup_of_noFile hfile]
  dsimp only
  rw [Disk.movable_of_names (hn.names d) (hs.names d) hholds hnot]
  simp [hne, scratchEntry]

/-- A staged file of the root does not take the place of a directory. -/
theorem outcome_place_directory_root (hs : IsEntryName s) {n : String} (hn : IsEntryName n)
    (hdir : d.HasDirectory [s]) (hholds : d.get? [n] = some (scratchEntry b)) :
    outcome (place ⟨rootPath s, rootPath n⟩) ⟨d, j⟩ =
      (.error (.write (rootPath s) .isDirectory), ⟨d, j⟩) := by
  have hmove : d.movable (rootPath n) (rootPath s) = .error .isDirectory := by
    have hnul := Disk.not_contains_of_checkText hs.checkText
    obtain ⟨m, hm⟩ := hdir
    rw [Disk.movable, if_neg (by simp [hnul]), hn.place, hs.place]
    simp [hholds, scratchEntry, Nat.not_lt.mpr hs.short, hm]
  rw [place_eq, outcome_bind, outcome_makeAbove_root hs]
  dsimp only
  rw [outcome_settle, outcome_takeBackup_of_noFile (hs.isFile_of_directory hdir)]
  dsimp only
  rw [hmove]

/-- A staged file of the root takes the place of what leads to a file, which is put aside. -/
theorem outcome_place_over_root (hs : IsEntryName s) {n k : String} (hn : IsEntryName n)
    (hk : IsEntryName k) (hns : n ≠ s) (hks : k ≠ s) (hnk : n ≠ k)
    (hfresh : d.freshName [] scratchStem = k) {x : Entry} (hx : d.get? [s] = some x)
    (hdir : x.isDirectory = false) (hfile : d.isFile (rootPath s) = true)
    (hholds : d.get? [n] = some (scratchEntry b)) :
    outcome (place ⟨rootPath s, rootPath n⟩) ⟨d, j⟩ =
      (.ok (), ⟨((((d.put [k] (scratchEntry [])).erase [s]).put [k] x).erase [n]).put [s]
          (scratchEntry b),
        { j with placed := ⟨rootPath s, some (rootPath k)⟩ :: j.placed }⟩) := by
  set d₁ := d.put [k] (scratchEntry []) with hd₁
  set d₂ := (d₁.erase [s]).put [k] x with hd₂
  have hget₁ : d₁.get? = Function.update d.get? [k] (some (scratchEntry [])) :=
    Disk.get?_put_eq (by simp) _
  have hget₂ : d₂.get? = Function.update (Function.update d₁.get? [s] none) [k] (some x) := by
    rw [hd₂, Disk.get?_put_eq (by simp), Disk.get?_erase_eq (by simp)]
  have hmove : d₁.movable (rootPath s) (rootPath k) = .ok ([s], [k], x) := by
    refine Disk.movable_of_entry (hs.names d₁) (hk.names d₁) ?_ hdir ?_
    · rw [hget₁, Function.update_of_ne (by simpa using hks.symm), hx]
    · rintro ⟨i, hi⟩
      simp [hget₁, scratchEntry] at hi
  have hbackup : outcome (takeBackup (rootPath s)) ⟨d, j⟩ = (.ok (some (rootPath k)), ⟨d₂, j⟩) := by
    rw [takeBackup, outcome_bind, outcome_get]
    dsimp only
    rw [if_pos hfile, outcome_bind, outcome_onDisk, outcome_scratchFor_root hs hfresh hk]
    dsimp only
    rw [outcome_bind, outcome_tryCatch, outcome_onDisk, outcome_moveFile, ← hd₁, hmove]
    simp [hks.symm, hd₂]
  have hlast : d₂.movable (rootPath n) (rootPath s) = .ok ([n], [s], scratchEntry b) := by
    refine Disk.movable_of_names (hn.names d₂) (hs.names d₂) ?_ ?_
    · rw [hget₂, Function.update_of_ne (by simpa using hnk),
        Function.update_of_ne (by simpa using hns), hget₁,
        Function.update_of_ne (by simpa using hnk), hholds, scratchEntry]
    · rintro ⟨i, hi⟩
      rw [hget₂, Function.update_of_ne (by simpa using hks.symm), Function.update_self] at hi
      simp at hi
  rw [place_eq, outcome_bind, outcome_makeAbove_root hs]
  dsimp only
  rw [outcome_settle, hbackup]
  dsimp only
  rw [hlast]
  simp [hns]

/-- The scratch name that a directory without any takes first. -/
def scratch₀ : String := ".protoc-sandbox-000000"

/-- The scratch name that comes after `scratch₀`. -/
def scratch₁ : String := ".protoc-sandbox-000001"

/-- The scratch name that comes after `scratch₁`. -/
def scratch₂ : String := ".protoc-sandbox-000002"

theorem isEntryName_scratch₀ : IsEntryName scratch₀ := by decide

theorem isEntryName_scratch₁ : IsEntryName scratch₁ := by decide

theorem isEntryName_scratch₂ : IsEntryName scratch₂ := by decide

theorem numbered_scratch₀ : scratchStem ++ Disk.sixDigits 0 = scratch₀ := by cbv

theorem numbered_scratch₁ : scratchStem ++ Disk.sixDigits 1 = scratch₁ := by cbv

theorem numbered_scratch₂ : scratchStem ++ Disk.sixDigits 2 = scratch₂ := by cbv

theorem freshName_scratch₀ (h : d.get? [scratch₀] = none) :
    d.freshName [] scratchStem = scratch₀ := by
  rw [← numbered_scratch₀] at h ⊢
  exact Disk.freshName_eq (Nat.zero_le _) h (by simp)

theorem freshName_scratch₁ (hlen : 1 ≤ d.entries.length) (h₀ : d.get? [scratch₀] ≠ none)
    (h : d.get? [scratch₁] = none) : d.freshName [] scratchStem = scratch₁ := by
  rw [← numbered_scratch₀] at h₀
  rw [← numbered_scratch₁] at h ⊢
  refine Disk.freshName_eq hlen h fun i hi => ?_
  obtain rfl : i = 0 := by omega
  exact h₀

theorem freshName_scratch₂ (hlen : 2 ≤ d.entries.length) (h₀ : d.get? [scratch₀] ≠ none)
    (h₁ : d.get? [scratch₁] ≠ none) (h : d.get? [scratch₂] = none) :
    d.freshName [] scratchStem = scratch₂ := by
  rw [← numbered_scratch₀] at h₀
  rw [← numbered_scratch₁] at h₁
  rw [← numbered_scratch₂] at h ⊢
  refine Disk.freshName_eq hlen h fun i hi => ?_
  obtain rfl | rfl : i = 0 ∨ i = 1 := by omega
  · exact h₀
  · exact h₁

/-- Staging two files of the root. -/
theorem outcome_stage_two (hs : IsEntryName s) {t : String} (ht : IsEntryName t)
    (h₀ : d.freshName [] scratchStem = scratch₀) (b c : Bytes)
    (h₁ : (d.put [scratch₀] (scratchEntry b)).freshName [] scratchStem = scratch₁) :
    outcome (Transaction.stageAll {} [(rootPath s, b), (rootPath t, c)]) d =
      (.ok ⟨[⟨rootPath s, rootPath scratch₀⟩, ⟨rootPath t, rootPath scratch₁⟩]⟩,
        (d.put [scratch₀] (scratchEntry b)).put [scratch₁] (scratchEntry c)) := by
  rw [Transaction.stageAll, outcome_bind, outcome_tryCatch,
    outcome_stage_root {} hs h₀ isEntryName_scratch₀]
  dsimp only
  rw [Transaction.stageAll, outcome_bind, outcome_tryCatch,
    outcome_stage_root _ ht h₁ isEntryName_scratch₁]
  rfl

end ProtoForge.Output
