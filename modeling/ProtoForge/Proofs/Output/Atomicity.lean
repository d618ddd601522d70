import ProtoForge.Proofs.Output.Placement

/-!
# Atomicity of output transactions

A transaction writes all of its files or none. Staging adds scratch files only;
a commit that succeeds leaves the earlier tree with the files and the missing
directories above them, and whatever fails leaves the tree as it was.
-/
namespace ProtoForge.Output

open Files

variable {origin d d' e : Disk} {waiting rest : List Waiting} {moves : List Move}
  {made : List Made} {m : Move} {l : Location} {files : List (Path × Bytes)}

/-- The target and the content of a staged file. -/
def Waiting.output (w : Waiting) : Path × Bytes := (w.pending.target, w.bytes)

/-- The target and the content of a file that was moved into place. -/
def Move.output (m : Move) : Path × Bytes := (m.target, m.bytes)

/-- Every directory that was made lies above a file that was placed. -/
def AllNeeded (moves : List Move) (made : List Made) : Prop :=
  ∀ g ∈ made, ∃ m ∈ moves, g.spot <+: m.spot

theorem outcome_placeAll_cons (p : Pending) (ps : List Pending) (s : CommitState) :
    outcome (placeAll (p :: ps)) s =
      match outcome (place p) s with
      | (.ok (), s') => outcome (placeAll ps) s'
      | (.error e, s') =>
          (.error e, ⟨discardAll (ps.map (·.scratch))
            (s'.journal.takenBack (discard p.scratch s'.disk)), s'.journal⟩) := by
  rw [placeAll, outcome_bind, outcome_tryCatch]
  rcases outcome (place p) s with ⟨e | ⟨⟩, d', j'⟩
  · dsimp only
    rw [outcome_bind, outcome_quietly]
    dsimp only
    rw [outcome_bind, outcome_rollBack]
    dsimp only
    rw [outcome_bind, outcome_forM_quietly (g := fun d q => discard q.scratch d)]
    · rw [discardAll, List.foldl_map]
      rfl
    · exact fun _ _ _ => rfl
  · rfl

/-- Placing all staged files: the whole list is placed, or the disk is the one before staging. -/
theorem placeAll_cases (h : Progress origin waiting moves made d)
    (hs : Standing origin moves made d) (hneeded : AllNeeded moves made)
    (hord : ∀ w ∈ waiting, IsOrdinary w.pending.target) :
    (∃ e s, outcome (placeAll (waiting.map Waiting.pending)) ⟨d, journalOf moves made⟩ =
        (.error e, s) ∧ origin.SameTree s.disk) ∨
      ∃ moves' made' d', outcome (placeAll (waiting.map Waiting.pending))
          ⟨d, journalOf moves made⟩ = (.ok (), ⟨d', journalOf moves' made'⟩) ∧
        Progress origin [] moves' made' d' ∧ Standing origin moves' made' d' ∧
        AllNeeded moves' made' ∧
        moves'.reverse.map Move.output =
          moves.reverse.map Move.output ++ waiting.map Waiting.output := by
  induction waiting generalizing moves made d with
  | nil => exact Or.inr ⟨moves, made, d, rfl, h, hs, hneeded, by simp⟩
  | cons w rest ih =>
    rw [List.map_cons, outcome_placeAll_cons]
    rcases place_cases h hs (hord w List.mem_cons_self) with
      ⟨e, new, d', hout, h'⟩ | ⟨m, new, d', hout, htarget, hbytes, h', hs', habove⟩
    · left
      rw [hout]
      refine ⟨e, _, rfl, ?_⟩
      have hback := h'.discard.takenBack.discardAll
      rw [List.map_map]
      exact hback.sameTree
    · rw [hout]
      have hneeded' : AllNeeded (m :: moves) (new ++ made) := by
        intro g hg
        rcases List.mem_append.mp hg with hg | hg
        · exact ⟨m, List.mem_cons_self, habove g hg⟩
        · obtain ⟨m', hm', hgm⟩ := hneeded g hg
          exact ⟨m', List.mem_cons_of_mem m hm', hgm⟩
      have houtput : m.output = w.output := by rw [Move.output, htarget, hbytes, Waiting.output]
      rcases ih h' hs' hneeded' (fun w' hw' => hord w' (List.mem_cons_of_mem w hw')) with
        hfail | ⟨moves', made', d'', hout', h'', hs'', hneeded'', houtputs⟩
      · exact Or.inl hfail
      · refine Or.inr ⟨moves', made', d'', hout', h'', hs'', hneeded'', ?_⟩
        rw [houtputs, List.reverse_cons, List.map_append, List.map_cons, List.map_cons, houtput,
          List.append_assoc]
        rfl

/-- Staging one file adds a scratch file for it, or nothing happens. -/
theorem stage_cases (h : Recoverable origin waiting [] [] d) (target : Path) (b : Bytes) :
    (∃ e, outcome (Transaction.stage ⟨waiting.map Waiting.pending⟩ target b) d = (.error e, d)) ∨
      ∃ w d', outcome (Transaction.stage ⟨waiting.map Waiting.pending⟩ target b) d =
          (.ok ⟨(waiting ++ [w]).map Waiting.pending⟩, d') ∧
        Recoverable origin (waiting ++ [w]) [] [] d' ∧ w.output = (target, b) := by
  rw [Transaction.stage, outcome_bind, outcome_orFail]
  rcases scratchFor_cases target b with ⟨e, hout⟩ | ⟨q, l, hout, hn, hl, hscratch⟩
  · left
    exact ⟨.write target e, by rw [hout]⟩
  · right
    refine ⟨⟨⟨target, q⟩, l, b⟩, _, ?_, h.stage hn hl hscratch target b, rfl⟩
    rw [hout, List.map_append]
    rfl

/-- Staging all files: each waits in a scratch file, or the disk is the one before staging. -/
theorem outcome_stageAll_cases (h : Recoverable origin waiting [] [] d)
    (files : List (Path × Bytes)) :
    (∃ e d', outcome (Transaction.stageAll ⟨waiting.map Waiting.pending⟩ files) d =
        (.error e, d') ∧ origin.SameTree d') ∨
      ∃ waiting' d', outcome (Transaction.stageAll ⟨waiting.map Waiting.pending⟩ files) d =
          (.ok ⟨waiting'.map Waiting.pending⟩, d') ∧ Recoverable origin waiting' [] [] d' ∧
        waiting'.map Waiting.output = waiting.map Waiting.output ++ files := by
  induction files generalizing waiting d with
  | nil => exact Or.inr ⟨waiting, d, rfl, h, by simp⟩
  | cons f files ih =>
    obtain ⟨target, b⟩ := f
    rw [Transaction.stageAll, outcome_bind, outcome_tryCatch]
    rcases stage_cases h target b with ⟨e, hout⟩ | ⟨w, d', hout, h', houtput⟩
    · left
      rw [hout]
      refine ⟨e, Transaction.abandon ⟨waiting.map Waiting.pending⟩ d, rfl, ?_⟩
      rw [Transaction.abandon, List.map_map]
      exact h.discardAll.sameTree
    · rw [hout]
      rcases ih h' with hfail | ⟨waiting', d'', hout', h'', houtputs⟩
      · exact Or.inl hfail
      · refine Or.inr ⟨waiting', d'', hout', h'', ?_⟩
        rw [houtputs, List.map_append, List.append_assoc, List.map_singleton, houtput]
        rfl

/-- Staging all files on a disk without links. -/
theorem stageAll_cases (h : Progress origin waiting [] [] d) (files : List (Path × Bytes)) :
    (∃ e d', outcome (Transaction.stageAll ⟨waiting.map Waiting.pending⟩ files) d =
        (.error e, d') ∧ origin.SameTree d') ∨
      ∃ waiting' d', outcome (Transaction.stageAll ⟨waiting.map Waiting.pending⟩ files) d =
          (.ok ⟨waiting'.map Waiting.pending⟩, d') ∧ Progress origin waiting' [] [] d' ∧
        waiting'.map Waiting.output = waiting.map Waiting.output ++ files := by
  rcases outcome_stageAll_cases h.toRecoverable files with
    hfail | ⟨waiting', d', hout, h', houtputs⟩
  · exact Or.inl hfail
  · exact Or.inr ⟨waiting', d', hout, .of_staged h' h.plain, houtputs⟩

/-- The files that moves put aside, by path and location. -/
def backupsOf (moves : List Move) : List (Path × Location) := moves.filterMap Move.backup

theorem filterMap_backup (moves : List Move) :
    (moves.map Move.placed).filterMap (·.backup) = (backupsOf moves).map Prod.fst := by
  rw [backupsOf, List.filterMap_map, List.map_filterMap]
  rfl

/-- Removing files that may be gone already takes away what is left of them. -/
theorem discardAll_spec (hd : d.IsTree) (bs : List (Path × Location))
    (hnamed : ∀ b ∈ bs, d.Names b.1 b.2 false)
    (hfiles : ∀ b ∈ bs, View.HasFile d.get? b.2 ∨ d.get? b.2 = none) :
    (discardAll (bs.map Prod.fst) d).IsTree ∧ d.Keeps (discardAll (bs.map Prod.fst) d) ∧
      (∀ l ∈ bs.map Prod.snd, (discardAll (bs.map Prod.fst) d).get? l = none) ∧
      ∀ l ∉ bs.map Prod.snd, (discardAll (bs.map Prod.fst) d).get? l = d.get? l := by
  induction bs generalizing d with
  | nil => exact ⟨hd, .refl d, by simp, fun _ _ => rfl⟩
  | cons b bs ih =>
    have hn := hnamed b List.mem_cons_self
    obtain ⟨htree, hkeeps, hget⟩ : (discard b.1 d).IsTree ∧ d.Keeps (discard b.1 d) ∧
        (discard b.1 d).get? = Function.update d.get? b.2 none := by
      rcases hfiles b List.mem_cons_self with hfile | hnone
      · rw [discard, removeFile_after hn hfile]
        obtain ⟨htree, hkeeps⟩ := hd.eraseFile hfile
        exact ⟨htree, hkeeps, Disk.get?_erase_eq hn.ne_nil⟩
      · rw [discard, removeFile_after_of_absent hn hnone]
        exact ⟨hd, .refl d, by rw [← hnone, Function.update_eq_self]⟩
    obtain ⟨htree', hkeeps', hgone, hrest⟩ := ih htree
      (fun b' hb' => (hnamed b' (List.mem_cons_of_mem b hb')).of_keeps hd.linkFree htree.linkFree
        hkeeps)
      (fun b' hb' => by
        rw [View.HasFile, hget]
        by_cases heq : b'.2 = b.2
        · exact Or.inr (by rw [heq, Function.update_self])
        · rw [Function.update_of_ne heq]
          exact hfiles b' (List.mem_cons_of_mem b hb'))
    refine ⟨htree', hkeeps.trans hkeeps', fun l hl => ?_, fun l hl => ?_⟩
    · by_cases hmem : l ∈ bs.map Prod.snd
      · exact hgone l hmem
      · have hlb : l = b.2 := by simpa [hmem] using hl
        refine (hrest l hmem).trans ?_
        rw [hget, hlb, Function.update_self]
    · rw [List.map_cons, List.mem_cons, not_or] at hl
      refine (hrest l hl.2).trans ?_
      rw [hget, Function.update_of_ne hl.1]

theorem outcome_commit (t : Transaction) (d : Disk) :
    outcome t.commit d =
      match outcome (placeAll t.pending) ⟨d, {}⟩ with
      | (.ok (), s) =>
          (.ok (t.pending.map (·.target)),
            discardAll (s.journal.placed.filterMap (·.backup)) s.disk)
      | (.error e, s) => (.error e, s.disk) := by
  rw [Transaction.commit, outcome_bind, outcome_get]
  have hrun : (placeAll t.pending).run.run ⟨d, {}⟩ = outcome (placeAll t.pending) ⟨d, {}⟩ := rfl
  dsimp only
  rw [hrun]
  rcases outcome (placeAll t.pending) ⟨d, {}⟩ with ⟨e | ⟨⟩, s⟩ <;> rfl

/-- A disk on which some files were written: each location holds what was written to it last, the
directories above that were missing are there, and all else is as before. -/
structure Wrote (origin : Disk) (written : List (Location × Bytes)) (d : Disk) : Prop where
  workingDirectory : d.workingDirectory = origin.workingDirectory
  contents : ∀ l b, written.reverse.lookup l = some b → d.get? l = some (scratchEntry b)
  parents : ∀ l, origin.get? l = none → (∃ w ∈ written, l <+: w.1 ∧ l ≠ w.1) →
    d.get? l = some (.directory (d.inheritedMode l.dropLast))
  others : ∀ l, l ∉ written.map Prod.fst →
    (origin.get? l = none → ∀ w ∈ written, ¬ l <+: w.1) → d.get? l = origin.get? l

/-- A disk on which only scratch files are new. -/
structure OnlyScratchAdded (origin d : Disk) : Prop where
  workingDirectory : d.workingDirectory = origin.workingDirectory
  entries : ∀ l, d.get? l = origin.get? l ∨
    origin.get? l = none ∧ IsScratchSpot l ∧ ∃ b, d.get? l = some (scratchEntry b)

theorem Recoverable.onlyScratchAdded (h : Recoverable origin waiting [] [] d) :
    OnlyScratchAdded origin d := by
  refine ⟨h.workingDirectory, fun l => ?_⟩
  by_cases hl : l ∈ waiting.map Waiting.spot
  · obtain ⟨w, hw, rfl⟩ := List.mem_map.mp hl
    have hwaits := (h.waits w hw).1
    exact Or.inr ⟨hwaits.free, hwaits.scratch, w.bytes, hwaits.holds⟩
  · exact Or.inl (h.undone l (by simp) hl)

theorem find?_of_lookup {b : Bytes}
    (h : (moves.map fun m => (m.spot, m.bytes)).lookup l = some b) :
    ∃ m, moves.find? (·.spot = l) = some m ∧ m.bytes = b := by
  induction moves with
  | nil => simp at h
  | cons m moves ih =>
    rw [List.map_cons, List.lookup_cons] at h
    by_cases hl : m.spot = l
    · refine ⟨m, List.find?_cons_of_pos (by simpa using hl), ?_⟩
      simpa [hl] using h
    · rw [List.find?_cons_of_neg (by simpa using hl)]
      have hne : (l == m.spot) = false := by simpa using Ne.symm hl
      exact ih (by simpa [hne] using h)

theorem mem_backupsOf {b : Path × Location} (hb : b ∈ backupsOf moves) :
    ∃ m ∈ moves, m.backup = some b := by
  simpa [backupsOf] using hb

theorem mem_touchedBy_iff :
    l ∈ touchedBy moves ↔ (∃ m ∈ moves, l = m.spot) ∨ l ∈ (backupsOf moves).map Prod.snd := by
  induction moves with
  | nil => simp [backupsOf]
  | cons m moves ih =>
    have hcons : (backupsOf (m :: moves)).map Prod.snd =
        (m.backup.map Prod.snd).toList ++ (backupsOf moves).map Prod.snd := by
      cases hb : m.backup <;> simp [backupsOf, hb]
    rw [mem_touchedBy_cons, ih, hcons, List.mem_append, Move.touched, List.mem_cons]
    constructor
    · rintro ((rfl | hl) | ⟨m', hm', rfl⟩ | hl)
      · exact Or.inl ⟨m, List.mem_cons_self, rfl⟩
      · exact Or.inr (Or.inl hl)
      · exact Or.inl ⟨m', List.mem_cons_of_mem m hm', rfl⟩
      · exact Or.inr (Or.inr hl)
    · rintro (⟨m', hm', rfl⟩ | hl | hl)
      · rcases List.mem_cons.mp hm' with rfl | hm'
        · exact Or.inl (Or.inl rfl)
        · exact Or.inr (Or.inl ⟨m', hm', rfl⟩)
      · exact Or.inl (Or.inr hl)
      · exact Or.inr (Or.inr hl)

/-- Where files were written and what, the first first. -/
def writtenBy (moves : List Move) : List (Location × Bytes) :=
  moves.reverse.map fun m => (m.spot, m.bytes)

theorem mem_writtenBy {x : Location × Bytes} :
    x ∈ writtenBy moves ↔ ∃ m ∈ moves, (m.spot, m.bytes) = x := by
  simp [writtenBy]

/-- A disk after some moves, without the files that they put aside. -/
structure Cleared (moves : List Move) (d e : Disk) : Prop where
  tree : e.IsTree
  keeps : d.Keeps e
  gone : ∀ l ∈ (backupsOf moves).map Prod.snd, e.get? l = none
  rest : ∀ l, l ∉ (backupsOf moves).map Prod.snd → e.get? l = d.get? l

namespace Cleared

theorem of_discardAll (h : Progress origin [] moves made d) (hs : Standing origin moves made d) :
    Cleared moves d (discardAll ((backupsOf moves).map Prod.fst) d) := by
  have hnamed : ∀ b ∈ backupsOf moves, d.Names b.1 b.2 false := by
    intro b hb
    obtain ⟨m, hm, hmb⟩ := mem_backupsOf hb
    exact (h.named m hm).2 _ _ hmb
  have hfiles : ∀ b ∈ backupsOf moves, View.HasFile d.get? b.2 := fun b hb =>
    hs.files _ (mem_touchedBy_iff.mpr (Or.inr (List.mem_map_of_mem hb)))
  obtain ⟨htree, hkeeps, hgone, hrest⟩ := discardAll_spec h.tree (backupsOf moves) hnamed
    fun b hb => Or.inl (hfiles b hb)
  exact ⟨htree, hkeeps, hgone, hrest⟩

/-- What was placed was not put aside. -/
theorem spot_eq (hc : Cleared moves d e) (hs : Standing origin moves made d) (hm : m ∈ moves) :
    e.get? m.spot = d.get? m.spot := by
  refine hc.rest _ fun hmem => ?_
  obtain ⟨⟨q, b⟩, hb, heq⟩ := List.mem_map.mp hmem
  obtain ⟨m', hm', hmb⟩ := mem_backupsOf hb
  exact hs.spots m hm (heq ▸ (hs.backups m' hm' q b hmb).1)

theorem hasFile (hc : Cleared moves d e) (hs : Standing origin moves made d) (hm : m ∈ moves) :
    View.HasFile e.get? m.spot := by
  obtain ⟨c, n, hfile⟩ := hs.files m.spot (mem_touchedBy_iff.mpr (Or.inl ⟨m, hm, rfl⟩))
  exact ⟨c, n, by rw [hc.spot_eq hs hm, hfile]⟩

theorem contents (hc : Cleared moves d e) (hs : Standing origin moves made d) {b : Bytes}
    (hl : (writtenBy moves).reverse.lookup l = some b) : e.get? l = some (scratchEntry b) := by
  rw [writtenBy, ← List.map_reverse, List.reverse_reverse] at hl
  obtain ⟨m, hm, rfl⟩ := find?_of_lookup hl
  have hml : m.spot = l := by simpa using List.find?_some hm
  rw [← hml, hc.spot_eq hs (List.mem_of_find?_eq_some hm), hml, hs.latest l m hm]

/-- What is new above a target is a directory that was made, with the mode of the one above. -/
theorem parents (hc : Cleared moves d e) (h : Progress origin [] moves made d)
    (hs : Standing origin moves made d) (hfree : origin.get? l = none) (hm : m ∈ moves)
    (habove : l <+: m.spot) (hne : l ≠ m.spot) :
    e.get? l = some (.directory (e.inheritedMode l.dropLast)) := by
  obtain ⟨c, n, hfile⟩ := hc.hasFile hs hm
  obtain ⟨i, hi⟩ := hc.tree.hasDirectory_of_prefix habove hne.symm (by simp [hfile])
  have hl : l ∉ (backupsOf moves).map Prod.snd := by
    intro hmem
    simp [hc.gone l hmem] at hi
  have hd : d.get? l = some (.directory i) := by rw [← hc.rest l hl, hi]
  rcases h.old_or_made hs.not_hasDirectory hd with hold | ⟨g, hg, rfl, rfl⟩
  · simp [hfree] at hold
  · rw [hi, ← h.inherited_of_keeps h.rooted hs.inherited hc.keeps hg]

/-- What is neither a target nor new above one is as it was. -/
theorem others (hc : Cleared moves d e) (h : Progress origin [] moves made d)
    (hs : Standing origin moves made d) (hneeded : AllNeeded moves made)
    (hspot : ∀ m ∈ moves, l ≠ m.spot)
    (habove : origin.get? l = none → ∀ m ∈ moves, ¬ l <+: m.spot) :
    e.get? l = origin.get? l := by
  by_cases hmem : l ∈ (backupsOf moves).map Prod.snd
  · obtain ⟨⟨q, b⟩, hb, rfl⟩ := List.mem_map.mp hmem
    obtain ⟨m, hm, hmb⟩ := mem_backupsOf hb
    rw [hc.gone b hmem, (hs.backups m hm q b hmb).2]
  have htouched : l ∉ touchedBy moves := by
    rw [mem_touchedBy_iff, not_or]
    refine ⟨?_, hmem⟩
    rintro ⟨m, hm, heq⟩
    exact hspot m hm heq
  have hmade : l ∉ made.map Made.spot := by
    intro hmade
    obtain ⟨g, hg, rfl⟩ := List.mem_map.mp hmade
    obtain ⟨m, hm, hgm⟩ := hneeded g hg
    exact habove (h.fresh g hg).2 m hm hgm
  rw [hc.rest l hmem, ← h.undone l hmade (by simp), undoAll_of_not_mem htouched]

end Cleared

/-- A commit that placed everything, without the files that it put aside. -/
theorem wrote_of_progress (h : Progress origin [] moves made d)
    (hs : Standing origin moves made d) (hneeded : AllNeeded moves made) :
    Wrote origin (writtenBy moves) (discardAll ((backupsOf moves).map Prod.fst) d) ∧
      ∀ m ∈ moves, (discardAll ((backupsOf moves).map Prod.fst) d).locate m.target true =
        .ok m.spot := by
  have hc := Cleared.of_discardAll h hs
  refine ⟨⟨hc.keeps.workingDirectory.trans h.workingDirectory, fun l b hl => hc.contents hs hl,
      ?_, ?_⟩,
    fun m hm => ?_⟩
  · rintro l hfree ⟨x, hx, habove, hne⟩
    obtain ⟨m, hm, rfl⟩ := mem_writtenBy.mp hx
    exact hc.parents h hs hfree hm habove hne
  · intro l hl habove
    refine hc.others h hs hneeded (fun m hm heq => hl ?_) fun hfree m hm => ?_
    · exact List.mem_map.mpr ⟨_, mem_writtenBy.mpr ⟨m, hm, rfl⟩, heq.symm⟩
    · exact habove hfree _ (mem_writtenBy.mpr ⟨m, hm, rfl⟩)
  · obtain ⟨c, n, hfile⟩ := hc.hasFile hs hm
    exact ((h.named m hm).1.of_keeps h.tree.linkFree hc.tree.linkFree hc.keeps).locate
      hc.tree.linkFree (by simp [hfile]) (by simp) true

/-- Committing staged files: all of them are written, or the disk is the one before staging. -/
theorem commit_cases (h : Progress origin waiting [] [] d)
    (hord : ∀ w ∈ waiting, IsOrdinary w.pending.target) :
    (∃ e d', outcome (Transaction.commit ⟨waiting.map Waiting.pending⟩) d = (.error e, d') ∧
        origin.SameTree d') ∨
      ∃ moves d', outcome (Transaction.commit ⟨waiting.map Waiting.pending⟩) d =
          (.ok (waiting.map (·.pending.target)), d') ∧
        moves.reverse.map Move.output = waiting.map Waiting.output ∧
        Wrote origin (writtenBy moves) d' ∧
        ∀ m ∈ moves, d'.locate m.target true = .ok m.spot := by
  rw [outcome_commit]
  rcases placeAll_cases h (.start origin d) (by simp [AllNeeded]) hord with
    ⟨e, s, hout, hsame⟩ | ⟨moves, made, d', hout, h', hs', hneeded, houtputs⟩
  · left
    change outcome (placeAll (waiting.map Waiting.pending)) ⟨d, {}⟩ = _ at hout
    exact ⟨e, s.disk, by rw [hout], hsame⟩
  · right
    change outcome (placeAll (waiting.map Waiting.pending)) ⟨d, {}⟩ = _ at hout
    obtain ⟨hwrote, hlocate⟩ := wrote_of_progress h' hs' hneeded
    refine ⟨moves, _, ?_, by simpa using houtputs, hwrote, hlocate⟩
    rw [hout]
    dsimp only [journalOf]
    rw [filterMap_backup, List.map_map]
    rfl

/-- A transaction is all or nothing. Staging only adds scratch files, which go when the
transaction is abandoned. A commit that succeeds returns the targets in order and leaves the
earlier tree with each target holding what was staged for it last and the missing directories
made. When staging or the commit fails, the tree is the one before staging. -/
def AllOrNothing (d : Disk) (files : List (Path × Bytes)) : Prop :=
  match outcome (Transaction.stageAll {} files) d with
  | (.error _, d₁) => d.SameTree d₁
  | (.ok t, d₁) =>
      OnlyScratchAdded d d₁ ∧ d.SameTree (t.abandon d₁) ∧
        match outcome t.commit d₁ with
        | (.error _, d₂) => d.SameTree d₂
        | (.ok paths, d₂) =>
            paths = files.map Prod.fst ∧ ∃ written, Wrote d written d₂ ∧
              List.Forall₂ (fun f w => d₂.locate f.1 true = .ok w.1 ∧ w.2 = f.2) files written

/-- On a tree of files and directories every transaction is all or nothing, as long as no target
has a name that scratch files take. -/
theorem transaction_all_or_nothing (hd : d.IsTree) (hord : ∀ f ∈ files, IsOrdinary f.1) :
    AllOrNothing d files := by
  rw [AllOrNothing]
  rcases stageAll_cases (.start hd) files with
    ⟨e, d₁, hout, hsame⟩ | ⟨waiting, d₁, hout, h, houtputs⟩
  · change outcome (Transaction.stageAll {} files) d = _ at hout
    rw [hout]
    exact hsame
  change outcome (Transaction.stageAll {} files) d = _ at hout
  rw [hout]
  have htargets : ∀ w ∈ waiting, IsOrdinary w.pending.target := by
    intro w hw
    refine hord w.output ?_
    simpa [houtputs] using List.mem_map_of_mem (f := Waiting.output) hw
  refine ⟨h.onlyScratchAdded, ?_, ?_⟩
  · rw [Transaction.abandon, List.map_map]
    exact h.discardAll.sameTree
  rcases commit_cases h htargets with
    ⟨e, d₂, hcommit, hsame⟩ | ⟨moves, d₂, hcommit, hmoves, hwrote, hlocate⟩
  · rw [hcommit]
    exact hsame
  rw [hcommit]
  have hfiles : moves.reverse.map Move.output = files := hmoves.trans (by simpa using houtputs)
  refine ⟨?_, writtenBy moves, hwrote, ?_⟩
  · have houtputs' : waiting.map Waiting.output = files := by simpa using houtputs
    rw [← houtputs', List.map_map]
    rfl
  · rw [← hfiles, writtenBy, List.forall₂_map_left_iff, List.forall₂_map_right_iff,
      List.forall₂_same]
    exact fun m hm => ⟨hlocate m (List.mem_reverse.mp hm), rfl⟩

/-- A directory with one file in it. -/
def sampleDisk : Disk :=
  ⟨[(["out"], .directory 0o755), (["out", "A"], .file (.bytes [0]) 0o644)], []⟩

/-- An existing target, a target in a directory that is missing, and the first one again. -/
def sampleFiles : List (Path × Bytes) :=
  [(⟨"out/A"⟩, [1]), (⟨"out/new/B"⟩, [2]), (⟨"out/A"⟩, [3])]

theorem sample_all_or_nothing :
    sampleDisk.IsTree ∧ (∀ f ∈ sampleFiles, IsOrdinary f.1) ∧
      AllOrNothing sampleDisk sampleFiles := by
  have htree : sampleDisk.IsTree := Disk.isTree_of_entries (by decide)
  have hA : IsOrdinary ⟨"out/A"⟩ := isOrdinary_of_startsWith (s := "A") (by decide) (by decide)
  have hB : IsOrdinary ⟨"out/new/B"⟩ :=
    isOrdinary_of_startsWith (s := "B") (by decide) (by decide)
  have hord : ∀ f ∈ sampleFiles, IsOrdinary f.1 := by
    simpa [sampleFiles] using ⟨hA, hB, hA⟩
  exact ⟨htree, hord, transaction_all_or_nothing htree hord⟩

end ProtoForge.Output
