import ProtoForge.Proofs.Files.Ways
import ProtoForge.Proofs.Output.Moves

/-!
# Accounts of a commit

What a commit has to account for in terms of what lies where: once all moves
are undone, only the scratch files that still wait and the directories that
were made are new. No path is followed here, so the accounts are the same with
links and without.
-/
namespace ProtoForge.Output

open Files

/-- A staged file that is not yet in place: where its scratch file lies and what it holds. -/
structure Waiting where
  pending : Pending
  spot : Location
  bytes : Bytes

/-- A directory that a commit made: the path that it was made through, where it lies and its
permissions. -/
structure Made where
  path : Path
  spot : Location
  mode : ℕ

/-- A location whose last name is one of a scratch file. -/
def IsScratchSpot (l : Location) : Prop :=
  ∃ parent s, IsScratchName scratchStem s ∧ l = parent ++ [s]

/-- The entry of a scratch file. -/
def scratchEntry (b : Bytes) : Entry := .file (.bytes b) scratchMode

/-- The file name of a target is none that scratch files take. -/
def IsOrdinary (target : Path) : Prop :=
  ∀ s, target.fileName? = some s → ¬ IsScratchName scratchStem s

theorem not_isScratchName_of_startsWith {s : String} (hs : s.startsWith scratchStem = false) :
    ¬ IsScratchName scratchStem s := by
  rintro ⟨n, rfl⟩
  rw [String.startsWith_string_eq_false_iff] at hs
  exact hs ⟨(Disk.sixDigits n).toList, by simp⟩

theorem isOrdinary_of_startsWith {target : Path} {s : String} (hname : target.fileName? = some s)
    (hs : s.startsWith scratchStem = false) : IsOrdinary target := by
  intro t ht
  rw [hname] at ht
  obtain rfl := Option.some.inj ht
  exact not_isScratchName_of_startsWith hs

theorem IsOrdinary.not_isScratchSpot {target : Path} (h : IsOrdinary target) {d : Disk}
    {l : Location} {slash : Bool} (hn : d.Names target l slash) :
    ¬ IsScratchSpot l := by
  obtain ⟨parent, s, hplace, -, rfl⟩ := hn
  rintro ⟨parent', s', hscratch, heq⟩
  obtain ⟨-, hs⟩ := List.append_inj' heq rfl
  obtain rfl : s = s' := by simpa using hs
  exact h s (Disk.fileName?_of_place hplace) hscratch

/-- A scratch file for a target is made at a free place, or nothing happens. -/
theorem scratchFor_cases {d : Disk} (target : Path) (b : Bytes) :
    (∃ e, outcome (scratchFor target b) d = (.error e, d)) ∨
      ∃ q l, outcome (scratchFor target b) d = (.ok q, d.put l (scratchEntry b)) ∧
        d.Names q l false ∧ d.get? l = none ∧ IsScratchSpot l := by
  rw [scratchFor, outcome_bind, outcome_get]
  dsimp only
  rcases hout : outcome (makeScratch (nearestDirectory d target) scratchStem b) d with ⟨e | q, d'⟩
  · left
    exact ⟨e, by rw [makeScratch_error hout]⟩
  · right
    obtain ⟨parent, s, hscratch, hn, hnone, rfl⟩ := makeScratch_ok (by decide) hout
    exact ⟨q, parent ++ [s], rfl, hn, hnone, parent, s, hscratch, rfl⟩

/-- A scratch file waits on a disk, at a place that was free before. -/
structure Waiting.WaitsOn (w : Waiting) (origin d : Disk) : Prop where
  named : origin.Names w.pending.scratch w.spot false
  free : origin.get? w.spot = none
  holds : d.get? w.spot = some (scratchEntry w.bytes)
  scratch : IsScratchSpot w.spot

/-- A directory that was made is there. -/
def Made.StandsOn (g : Made) (d : Disk) : Prop := d.get? g.spot = some (.directory g.mode)

/-- The accounts of a commit: the files that wait, and the moves and directories made so far, the
latest first. -/
structure Accounted (origin : Disk) (waiting : List Waiting) (moves : List Move)
    (made : List Made) (d : Disk) : Prop where
  workingDirectory : d.workingDirectory = origin.workingDirectory
  undone : ∀ l, l ∉ made.map Made.spot → l ∉ waiting.map Waiting.spot →
    undoAll moves d.get? l = origin.get? l
  waits : ∀ w ∈ waiting, w.WaitsOn origin d ∧ w.spot ∉ touchedBy moves
  distinct : (waiting.map Waiting.spot).Nodup
  fresh : ∀ g ∈ made, g.StandsOn d ∧ origin.get? g.spot = none

variable {origin d e : Disk} {waiting rest : List Waiting} {moves : List Move} {made : List Made}
  {w : Waiting} {m : Move} {g : Made} {l : Location}

theorem Waiting.WaitsOn.hasFile (h : w.WaitsOn origin d) : View.HasFile d.get? w.spot :=
  ⟨_, _, h.holds⟩

theorem Waiting.WaitsOn.of_eq (h : w.WaitsOn origin d) (he : e.get? w.spot = d.get? w.spot) :
    w.WaitsOn origin e :=
  ⟨h.named, h.free, he.trans h.holds, h.scratch⟩

/-- A directory stays where all directories stay. -/
theorem Made.StandsOn.of_directories (h : g.StandsOn d)
    (hdirs : ∀ l n, d.get? l = some (.directory n) → e.get? l = some (.directory n)) :
    g.StandsOn e :=
  hdirs _ _ h

namespace Accounted

theorem start (origin : Disk) : Accounted origin [] [] [] origin where
  workingDirectory := rfl
  undone := fun _ _ _ => rfl
  waits := by simp
  distinct := by simp
  fresh := by simp

/-- When nothing waits and nothing is left to undo, the disk is the one before staging. -/
theorem sameTree (h : Accounted origin [] [] [] d) : origin.SameTree d :=
  ⟨h.workingDirectory, funext fun l => h.undone l (by simp) (by simp)⟩

theorem of_sameTree (h : Accounted origin waiting moves made d) (he : d.SameTree e) :
    Accounted origin waiting moves made e where
  workingDirectory := he.workingDirectory.trans h.workingDirectory
  undone := he.entries ▸ h.undone
  waits := fun w hw => ⟨(h.waits w hw).1.of_eq (by rw [he.entries]), (h.waits w hw).2⟩
  distinct := h.distinct
  fresh := fun g hg => ⟨(h.fresh g hg).1.of_directories he.keeps.entries, (h.fresh g hg).2⟩

/-- What a commit made or put somewhere is not free. -/
theorem not_mem_of_absent (h : Accounted origin waiting moves made d) (hl : d.get? l = none) :
    l ∉ made.map Made.spot ∧ l ∉ waiting.map Waiting.spot := by
  constructor
  · intro hmem
    obtain ⟨g, hg, rfl⟩ := List.mem_map.mp hmem
    have hstands : d.get? g.spot = some (.directory g.mode) := (h.fresh g hg).1
    simp [hl] at hstands
  · intro hmem
    obtain ⟨w, hw, rfl⟩ := List.mem_map.mp hmem
    have hholds := (h.waits w hw).1.holds
    simp [hl] at hholds

/-- What is free now was free before, as long as something lies wherever moves touched. -/
theorem free_of_absent (h : Accounted origin waiting moves made d)
    (hsome : ∀ l ∈ touchedBy moves, d.get? l ≠ none) (hl : d.get? l = none) :
    l ∉ touchedBy moves ∧ origin.get? l = none := by
  have htouched : l ∉ touchedBy moves := fun ht => hsome l ht hl
  obtain ⟨hmade, hwaiting⟩ := h.not_mem_of_absent hl
  exact ⟨htouched, by rw [← h.undone l hmade hwaiting, undoAll_of_not_mem htouched, hl]⟩

/-- Directories are old or were made, as long as none lies where moves touched. -/
theorem old_or_made (h : Accounted origin waiting moves made d)
    (hnot : ∀ l ∈ touchedBy moves, ¬ d.HasDirectory l) {n : ℕ}
    (hl : d.get? l = some (.directory n)) :
    origin.get? l = some (.directory n) ∨ ∃ g ∈ made, g.spot = l ∧ g.mode = n := by
  by_cases hmade : l ∈ made.map Made.spot
  · obtain ⟨g, hg, rfl⟩ := List.mem_map.mp hmade
    have hstands : d.get? g.spot = some (.directory g.mode) := (h.fresh g hg).1
    rw [hl] at hstands
    cases hstands
    exact Or.inr ⟨g, hg, rfl, rfl⟩
  left
  have htouched : l ∉ touchedBy moves := fun ht => hnot l ht ⟨n, hl⟩
  have hwaiting : l ∉ waiting.map Waiting.spot := by
    intro hw
    obtain ⟨w, hwait, rfl⟩ := List.mem_map.mp hw
    exact Disk.not_hasDirectory_of_hasFile (h.waits w hwait).1.hasFile ⟨n, hl⟩
  rw [← h.undone l hmade hwaiting, undoAll_of_not_mem htouched, hl]

/-- No directory that was made lies below a free place. -/
theorem not_above_made (h : Accounted origin waiting moves made d) (hd : d.Rooted)
    (hl : d.get? l = none) (hg : g ∈ made) : ¬ l <+: g.spot := by
  intro habove
  have hstands : d.get? g.spot = some (.directory g.mode) := (h.fresh g hg).1
  simp [hd.absent_of_prefix hl habove] at hstands

/-- The permissions of a directory that was made stay those that the one above it passes on. -/
theorem inherited_of_keeps (h : Accounted origin waiting moves made d) (hd : d.Rooted)
    (hmode : ∀ g ∈ made, g.mode = d.inheritedMode g.spot.dropLast) (hkeeps : d.Keeps e)
    (hg : g ∈ made) : g.mode = e.inheritedMode g.spot.dropLast := by
  rw [hmode g hg, hkeeps.inheritedMode_eq (hd.hasDirectory_dropLast ⟨g.mode, (h.fresh g hg).1⟩)]

/-- Staging a file adds a scratch file that waits. -/
theorem stage (h : Accounted origin waiting [] made d) (hfree : d.get? w.spot = none)
    (hwaits : w.WaitsOn origin e) (hw : e.workingDirectory = d.workingDirectory)
    (hget : e.get? = Function.update d.get? w.spot (some (scratchEntry w.bytes))) :
    Accounted origin (waiting ++ [w]) [] made e := by
  obtain ⟨hmade, hnew⟩ := h.not_mem_of_absent hfree
  refine ⟨hw.trans h.workingDirectory, ?_, ?_, ?_, ?_⟩
  · intro k hk hk'
    rw [List.map_append, List.mem_append, not_or] at hk'
    have hkw : k ≠ w.spot := by simpa using hk'.2
    rw [undoAll_nil, hget, Function.update_of_ne hkw]
    exact h.undone k hk hk'.1
  · intro w' hw'
    rcases List.mem_append.mp hw' with hold | hlast
    · have hne : w'.spot ≠ w.spot := fun heq => hnew (heq ▸ List.mem_map_of_mem hold)
      exact ⟨(h.waits w' hold).1.of_eq (by rw [hget, Function.update_of_ne hne]), by simp⟩
    · obtain rfl := List.mem_singleton.mp hlast
      exact ⟨hwaits, by simp⟩
  · rw [List.map_append, List.nodup_append]
    refine ⟨h.distinct, by simp, ?_⟩
    intro k hk k' hk'
    obtain rfl : k' = w.spot := by simpa using hk'
    rintro rfl
    exact hnew hk
  · intro g hg
    have hne : g.spot ≠ w.spot := fun heq => hmade (heq ▸ List.mem_map_of_mem hg)
    exact ⟨by rw [Made.StandsOn, hget, Function.update_of_ne hne]; exact (h.fresh g hg).1,
      (h.fresh g hg).2⟩

/-- Making a directory at a place that was free all along. -/
theorem make (h : Accounted origin waiting moves made d) (hl : d.get? g.spot = none)
    (htouched : g.spot ∉ touchedBy moves) (hfree : origin.get? g.spot = none)
    (hw : e.workingDirectory = d.workingDirectory)
    (hget : e.get? = Function.update d.get? g.spot (some (.directory g.mode))) :
    Accounted origin waiting moves (g :: made) e := by
  obtain ⟨hmade, hwaiting⟩ := h.not_mem_of_absent hl
  refine ⟨hw.trans h.workingDirectory, ?_, ?_, h.distinct, ?_⟩
  · intro k hk hk'
    rw [List.map_cons, List.mem_cons, not_or] at hk
    rw [hget, undoAll_update htouched, Function.update_of_ne hk.1]
    exact h.undone k hk.2 hk'
  · intro w hw
    have hne : w.spot ≠ g.spot := fun heq => hwaiting (heq ▸ List.mem_map_of_mem hw)
    exact ⟨(h.waits w hw).1.of_eq (by rw [hget, Function.update_of_ne hne]), (h.waits w hw).2⟩
  · intro g' hg'
    rcases List.mem_cons.mp hg' with rfl | hg'
    · exact ⟨by rw [Made.StandsOn, hget, Function.update_self], hfree⟩
    · have hne : g'.spot ≠ g.spot := fun heq => hmade (heq ▸ List.mem_map_of_mem hg')
      exact ⟨by rw [Made.StandsOn, hget, Function.update_of_ne hne]; exact (h.fresh g' hg').1,
        (h.fresh g' hg').2⟩

/-- A file that no longer waits leaves what lay there before. -/
theorem undone_without (h : Accounted origin (w :: rest) moves made d)
    (hmade : l ∉ made.map Made.spot) (hrest : l ∉ rest.map Waiting.spot) :
    undoAll moves (Function.update d.get? w.spot none) l = origin.get? l := by
  obtain ⟨hwaits, htouched⟩ := h.waits w List.mem_cons_self
  rw [undoAll_update htouched]
  by_cases hl : l = w.spot
  · rw [hl, Function.update_self, hwaits.free]
  · rw [Function.update_of_ne hl]
    refine h.undone l hmade ?_
    rw [List.map_cons, List.mem_cons, not_or]
    exact ⟨hl, hrest⟩

theorem spot_ne_of_mem_rest (h : Accounted origin (w :: rest) moves made d) {w' : Waiting}
    (hw' : w' ∈ rest) : w'.spot ≠ w.spot := by
  intro heq
  have hnot := (List.nodup_cons.mp h.distinct).1
  exact hnot (heq ▸ List.mem_map_of_mem hw')

theorem spot_ne_of_mem_made (h : Accounted origin waiting moves made d) (hw : w ∈ waiting)
    (hg : g ∈ made) : w.spot ≠ g.spot := by
  intro heq
  have hholds := (h.waits w hw).1.holds
  have hstands : d.get? g.spot = some (.directory g.mode) := (h.fresh g hg).1
  rw [← heq, hholds] at hstands
  simp [scratchEntry] at hstands

/-- Removing a scratch file that waits. -/
theorem discard (h : Accounted origin (w :: rest) moves made d)
    (hw : e.workingDirectory = d.workingDirectory)
    (hget : e.get? = Function.update d.get? w.spot none) :
    Accounted origin rest moves made e := by
  refine ⟨hw.trans h.workingDirectory, ?_, ?_, (List.nodup_cons.mp h.distinct).2, ?_⟩
  · intro k hmade hk
    rw [hget]
    exact h.undone_without hmade hk
  · intro w' hw'
    obtain ⟨hwaits', htouched'⟩ := h.waits w' (List.mem_cons_of_mem w hw')
    refine ⟨hwaits'.of_eq ?_, htouched'⟩
    rw [hget, Function.update_of_ne (h.spot_ne_of_mem_rest hw')]
  · intro g hg
    have hne := (h.spot_ne_of_mem_made List.mem_cons_self hg).symm
    exact ⟨by rw [Made.StandsOn, hget, Function.update_of_ne hne]; exact (h.fresh g hg).1,
      (h.fresh g hg).2⟩

/-- A file that waited is in place: undoing the move gives the disk without the scratch file. -/
theorem place (h : Accounted origin (w :: rest) moves made d)
    (hw : e.workingDirectory = d.workingDirectory)
    (hdirs : ∀ l n, d.get? l = some (.directory n) → e.get? l = some (.directory n))
    (hundo : m.undo e.get? = Function.update d.get? w.spot none)
    (hrest : ∀ w' ∈ rest, w'.spot ∉ m.touched) : Accounted origin rest (m :: moves) made e := by
  obtain ⟨-, htouched⟩ := h.waits w List.mem_cons_self
  refine ⟨hw.trans h.workingDirectory, ?_, ?_, (List.nodup_cons.mp h.distinct).2, ?_⟩
  · intro k hmade hk
    rw [undoAll_cons, hundo]
    exact h.undone_without hmade hk
  · intro w' hw'
    obtain ⟨hwaits', htouched'⟩ := h.waits w' (List.mem_cons_of_mem w hw')
    refine ⟨hwaits'.of_eq ?_, ?_⟩
    · rw [← Move.undo_of_not_mem (hrest w' hw') e.get?, hundo,
        Function.update_of_ne (h.spot_ne_of_mem_rest hw')]
    · rw [mem_touchedBy_cons, not_or]
      exact ⟨hrest w' hw', htouched'⟩
  · exact fun g hg => ⟨(h.fresh g hg).1.of_directories hdirs, (h.fresh g hg).2⟩

/-- Undoing the latest move. -/
theorem undo (h : Accounted origin waiting (m :: moves) made d)
    (hw : e.workingDirectory = d.workingDirectory)
    (hdirs : ∀ l n, d.get? l = some (.directory n) → e.get? l = some (.directory n))
    (hget : e.get? = m.undo d.get?) : Accounted origin waiting moves made e := by
  refine ⟨hw.trans h.workingDirectory, ?_, ?_, h.distinct, ?_⟩
  · intro k hmade hk
    rw [hget]
    exact h.undone k hmade hk
  · intro w hw
    obtain ⟨hwaits, htouched⟩ := h.waits w hw
    rw [mem_touchedBy_cons, not_or] at htouched
    exact ⟨hwaits.of_eq (by rw [hget, Move.undo_of_not_mem htouched.1]), htouched.2⟩
  · exact fun g hg => ⟨(h.fresh g hg).1.of_directories hdirs, (h.fresh g hg).2⟩

/-- Once all moves are undone, nothing lies in the directory that was made last. -/
theorem empty_of_latest (h : Accounted origin waiting [] (g :: made) d) (ho : origin.Rooted)
    (habove : ∀ k ∈ made, ¬ g.spot <+: k.spot) (hgl : g.spot <+: l) (hne : l ≠ g.spot) :
    d.get? l = none := by
  have hnot := Disk.not_hasDirectory_of_absent (h.fresh g List.mem_cons_self).2
  by_cases hmade : l ∈ made.map Made.spot
  · obtain ⟨g', hg', rfl⟩ := List.mem_map.mp hmade
    exact absurd hgl (habove g' hg')
  by_cases hwaiting : l ∈ waiting.map Waiting.spot
  · -- the scratch file lies in an old directory, so above it everything is old
    obtain ⟨w, hw, rfl⟩ := List.mem_map.mp hwaiting
    obtain ⟨parent, s, hspot, hparent⟩ := (h.waits w hw).1.named.inDirectory
    have hgp : g.spot <+: parent := by
      rw [hspot] at hgl hne
      exact (List.prefix_concat_iff.mp hgl).resolve_left (Ne.symm hne)
    by_cases heq : parent = g.spot
    · exact absurd (heq ▸ hparent) hnot
    · obtain ⟨n, hn⟩ := hparent
      exact absurd (ho.hasDirectory_of_prefix hgp heq (by simp [hn])) hnot
  · rw [← ho.get?_eq_none_of_prefix hnot hgl hne]
    refine h.undone l ?_ hwaiting
    rw [List.map_cons, List.mem_cons, not_or]
    exact ⟨hne, hmade⟩

/-- Removing the directory that was made last. -/
theorem removeMade (h : Accounted origin waiting [] (g :: made) d)
    (habove : ∀ k ∈ made, ¬ g.spot <+: k.spot) (hw : e.workingDirectory = d.workingDirectory)
    (hget : e.get? = Function.update d.get? g.spot none) :
    Accounted origin waiting [] made e := by
  have hne : ∀ k ∈ made, k.spot ≠ g.spot := fun k hk heq =>
    habove k hk (heq ▸ List.prefix_rfl)
  refine ⟨hw.trans h.workingDirectory, ?_, ?_, h.distinct, ?_⟩
  · intro k hmade hk
    rw [undoAll_nil, hget]
    by_cases hkg : k = g.spot
    · rw [hkg, Function.update_self, (h.fresh g List.mem_cons_self).2]
    · rw [Function.update_of_ne hkg]
      refine h.undone k ?_ hk
      rw [List.map_cons, List.mem_cons, not_or]
      exact ⟨hkg, hmade⟩
  · intro w hw
    have hwg := h.spot_ne_of_mem_made hw List.mem_cons_self
    exact ⟨(h.waits w hw).1.of_eq (by rw [hget, Function.update_of_ne hwg]), (h.waits w hw).2⟩
  · intro k hk
    obtain ⟨hk', hfree⟩ := h.fresh k (List.mem_cons_of_mem g hk)
    exact ⟨by rw [Made.StandsOn, hget, Function.update_of_ne (hne k hk)]; exact hk', hfree⟩

end Accounted

end ProtoForge.Output
