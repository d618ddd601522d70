import ProtoForge.Proofs.Output.Recovery

/-!
# Steps of a commit

What each step of a commit does to disk and journal, with links or without:
making the directories above a target, putting aside what is in its way, and
moving a staged file onto it.
-/
namespace ProtoForge.Output

open Files

variable {origin d d' e : Disk} {waiting rest : List Waiting} {moves : List Move}
  {made : List Made} {w : Waiting} {m : Move} {target q : Path} {k l b spot : Location}

/-- Makes a directory and notes it. -/
def makeNoted (p : Path) : CommitAction Unit := do
  CommitAction.onDisk (makeDirectory p) (.write p)
  CommitAction.note fun j => { j with directories := p :: j.directories }

theorem outcome_makeNoted (p : Path) (d : Disk) (j : Journal) :
    outcome (makeNoted p) ⟨d, j⟩ =
      match d.newEntry p with
      | .ok l => (.ok (), ⟨d.put l (.directory (d.inheritedMode l.dropLast)),
          { j with directories := p :: j.directories }⟩)
      | .error e => (.error (.write p e), ⟨d, j⟩) := by
  rw [makeNoted, outcome_bind, outcome_onDisk, outcome_makeDirectory]
  cases d.newEntry p <;> rfl

theorem outcome_makeMissing (dir : Path) (d : Disk) (j : Journal) :
    outcome (makeMissing dir) ⟨d, j⟩ =
      outcome ((missingDirectories d dir).forM makeNoted) ⟨d, j⟩ := by
  rw [makeMissing, outcome_bind, outcome_get]
  rfl

/-- What holds of the directories that were made and of the disk goes on to hold when a path makes
one more. -/
def KeptByMaking (P : List Made → Disk → Prop) (p : Path) : Prop :=
  ∀ made d l slash, P made d → d.Names p l slash → d.get? l = none →
    P (⟨p, l, d.inheritedMode l.dropLast⟩ :: made)
      (d.put l (.directory (d.inheritedMode l.dropLast)))

/-- Making directories one after the other. If it succeeds, all of them were made. -/
theorem outcome_makeEach {P : List Made → Disk → Prop} {ps : List Path}
    (hP : ∀ p ∈ ps, KeptByMaking P p) (h : P made d) (moves : List Move) :
    ∃ r new d', outcome (ps.forM makeNoted) ⟨d, journalOf moves made⟩ =
        (r, ⟨d', journalOf moves (new ++ made)⟩) ∧
      P (new ++ made) d' ∧ (r = .ok () → new.map Made.path = ps.reverse) := by
  induction ps generalizing made d with
  | nil => exact ⟨.ok (), [], d, rfl, h, fun _ => rfl⟩
  | cons p ps ih =>
    rw [outcome_forM_cons, outcome_bind, outcome_makeNoted]
    cases hnew : d.newEntry p with
    | error e => exact ⟨.error (.write p e), [], d, rfl, h, by simp⟩
    | ok l =>
      obtain ⟨⟨slash, hn⟩, hl⟩ := Disk.newEntry_eq_ok_iff.mp hnew
      obtain ⟨r, new, d', hout, hmade, hpaths⟩ := ih
        (fun q hq => hP q (List.mem_cons_of_mem p hq))
        (hP p List.mem_cons_self made d l slash h hn hl)
      refine ⟨r, new ++ [⟨p, l, d.inheritedMode l.dropLast⟩], d', ?_, ?_, fun hr => ?_⟩
      · rw [List.append_assoc]
        exact hout
      · rw [List.append_assoc]
        exact hmade
      · rw [List.map_append, hpaths hr, List.reverse_cons]
        rfl

/-- Puts a staged file in place, with the file in its way put aside. -/
def settle (p : Pending) : CommitAction Unit := do
  let backup ← takeBackup p.target
  tryCatch (CommitAction.onDisk (moveFile p.scratch p.target) (.write p.target)) fun e => do
    if let some b := backup then restore b p.target
    throw e
  CommitAction.note fun j => { j with placed := ⟨p.target, backup⟩ :: j.placed }

/-- Makes the directories that are missing above a target. -/
def makeAbove (target : Path) : CommitAction Unit :=
  match target.parent? with
  | some dir => makeMissing dir
  | none => pure ()

/-- Making what is missing above a target. If it succeeds, all of it was made. -/
theorem outcome_makeAbove {P : List Made → Disk → Prop}
    (hP : ∀ dir, target.parent? = some dir → ∀ p ∈ dir.ancestors, KeptByMaking P p) (h : P made d)
    (moves : List Move) :
    ∃ r new d', outcome (makeAbove target) ⟨d, journalOf moves made⟩ =
        (r, ⟨d', journalOf moves (new ++ made)⟩) ∧ P (new ++ made) d' ∧
      (r = .ok () → new = [] ∨ ∃ dir missing, target.parent? = some dir ∧
        new.map Made.path = dir.ancestors.takeWhile missing) := by
  rw [makeAbove]
  cases hparent : target.parent? with
  | none => exact ⟨.ok (), [], d, rfl, h, fun _ => Or.inl rfl⟩
  | some dir =>
    dsimp only
    rw [outcome_makeMissing]
    have hmissing : ∀ p ∈ missingDirectories d dir, KeptByMaking P p := by
      intro p hp
      rw [missingDirectories, List.mem_reverse] at hp
      exact hP dir hparent p (List.takeWhile_subset _ hp)
    obtain ⟨r, new, d', hout, hmade, hpaths⟩ := outcome_makeEach hmissing h moves
    refine ⟨r, new, d', hout, hmade, fun hr => ?_⟩
    have hall := hpaths hr
    rw [missingDirectories, List.reverse_reverse] at hall
    exact Or.inr ⟨dir, _, rfl, hall⟩

theorem place_eq (p : Pending) : place p = makeAbove p.target >>= fun _ => settle p := by
  rw [place, makeAbove]
  cases p.target.parent? <;> rfl

/-- What moving a staged file onto its target does, once the way is free or a backup is made. -/
theorem outcome_settle (p : Pending) (d : Disk) (j : Journal) :
    outcome (settle p) ⟨d, j⟩ =
      match outcome (takeBackup p.target) ⟨d, j⟩ with
      | (.error e, s) => (.error e, s)
      | (.ok backup, s) =>
          match s.disk.movable p.scratch p.target with
          | .ok (l, k, x) =>
              (.ok (), ⟨if l = k then s.disk else (s.disk.erase l).put k x,
                { s.journal with placed := ⟨p.target, backup⟩ :: s.journal.placed }⟩)
          | .error e =>
              (.error (.write p.target e), match backup with
                | some b => ⟨restored b p.target s.disk, s.journal⟩
                | none => s) := by
  rw [settle, outcome_bind]
  rcases outcome (takeBackup p.target) ⟨d, j⟩ with ⟨e | backup, d', j'⟩
  · rfl
  dsimp only
  rw [outcome_bind, outcome_tryCatch, outcome_onDisk, outcome_moveFile]
  cases d'.movable p.scratch p.target with
  | ok lkx => rfl
  | error e => cases backup <;> rfl

/-- What was in the way of a target lies at a scratch name that was free. A path to the target leads
to a file, so no path to a directory crosses what was put aside. -/
structure PutAside (d : Disk) (target backup : Path) (spot b : Location) (d' : Disk) : Prop where
  rooted : d'.Rooted
  workingDirectory : d'.workingDirectory = d.workingDirectory
  target : d.Names target spot false
  backup : d.Names backup b false
  was : ∃ x, d.get? spot = some x ∧ x.isDirectory = false
  spared : ¬ d.LeadsOn spot
  free : d.get? b = none
  scratch : IsScratchSpot b
  entries : d'.get? = Function.update (Function.update d.get? spot none) b (d.get? spot)

namespace PutAside

theorem ne (ha : PutAside d target q spot b d') : b ≠ spot := by
  rintro rfl
  obtain ⟨x, hx, -⟩ := ha.was
  simp [ha.free] at hx

theorem keepsWays (ha : PutAside d target q spot b d') : d.KeepsWays d' := by
  refine ⟨ha.workingDirectory, fun l hl => ?_⟩
  have hlb : l ≠ b := by
    rintro rfl
    exact Disk.not_leadsOn_of_absent ha.free hl
  have hls : l ≠ spot := by
    rintro rfl
    exact ha.spared hl
  rw [ha.entries, Function.update_of_ne hlb, Function.update_of_ne hls]

theorem spot_eq_none (ha : PutAside d target q spot b d') : d'.get? spot = none := by
  rw [ha.entries, Function.update_of_ne ha.ne.symm, Function.update_self]

/-- Putting it back gives the disk on which it was put aside. -/
theorem restored (ha : PutAside d target q spot b d') : d.SameTree (restored q target d') := by
  obtain ⟨x, hx, hdir⟩ := ha.was
  have hb : d'.get? b = some x := by rw [ha.entries, Function.update_self, hx]
  have htarget := ha.target.of_keepsWays ha.keepsWays
  have hnot := Disk.not_hasDirectory_of_absent ha.spot_eq_none
  obtain ⟨-, hget⟩ := rooted_of_moved ha.rooted hb hdir htarget hnot
  have hsame : d.SameTree ((d'.erase b).put spot x) := by
    refine ⟨ha.workingDirectory, ?_⟩
    rw [hget, ha.entries, Function.update_idem, Function.update_comm ha.ne, Function.update_idem,
      ← hx, Function.update_eq_self]
    exact Function.update_eq_self_iff.mpr ha.free.symm
  rw [restored_eq (ha.backup.of_keepsWays ha.keepsWays) htarget hb hdir hnot ha.ne
    (ha.backup.of_keepsWays hsame.keepsWays)]
  exact hsame

end PutAside

/-- An empty scratch file at a free name. -/
theorem put_scratch (hd : d.Rooted) (hq : d.Names q b false) (hb : d.get? b = none) :
    (d.put b (scratchEntry [])).Rooted ∧ d.KeepsWays (d.put b (scratchEntry [])) ∧
      (d.put b (scratchEntry [])).KeepsWays d ∧
      (d.put b (scratchEntry [])).get? = Function.update d.get? b (some (scratchEntry [])) := by
  have hget := Disk.get?_put_eq (d := d) hq.ne_nil (scratchEntry [])
  have hfile : View.HasFile (d.put b (scratchEntry [])).get? b :=
    ⟨_, _, by rw [hget, Function.update_self, scratchEntry]⟩
  refine ⟨?_, .of_update rfl hget (Disk.not_leadsOn_of_absent hb), ?_, hget⟩
  · obtain ⟨parent, s, rfl, hparent⟩ := hq.inDirectory
    exact hd.put hparent (Disk.not_hasDirectory_of_absent hb) _
  · refine .of_update (x := none) rfl ?_ (Disk.not_leadsOn_of_hasFile hfile)
    rw [hget, Function.update_idem, ← hb, Function.update_eq_self]

/-- What moves onto a fresh scratch file is what the target names, and a path to a directory does
not cross it. -/
theorem putAside_of_movable (hd : d.Rooted) (hord : IsOrdinary target)
    (hfile : d.isFile target = true) (hq : d.Names q b false) (hb : d.get? b = none)
    (hscratch : IsScratchSpot b) {x : Entry}
    (hmove : (d.put b (scratchEntry [])).movable target q = .ok (l, k, x)) :
    PutAside d target q l b (if l = k then d.put b (scratchEntry [])
      else ((d.put b (scratchEntry [])).erase l).put k x) := by
  obtain ⟨hrooted, hkeeps, hback, hget⟩ := put_scratch hd hq hb
  obtain ⟨⟨parent, s, hplace, rfl⟩, hk, hl, hdir, hnot⟩ := Disk.movable_spec hmove
  obtain rfl := hk.unique (hq.of_keepsWays hkeeps)
  obtain ⟨htarget, hspared, -⟩ := Disk.names_of_isFile hfile (Disk.place_of_keepsWays hback hplace)
  have hne : parent ++ [s] ≠ k := by
    rintro rfl
    exact hord.not_isScratchSpot htarget hscratch
  have hwas : d.get? (parent ++ [s]) = some x := by
    rwa [hget, Function.update_of_ne hne] at hl
  obtain ⟨hrooted', hget'⟩ := rooted_of_moved hrooted hl hdir (hq.of_keepsWays hkeeps) hnot
  rw [if_neg hne]
  refine ⟨hrooted', rfl, htarget, hq, ⟨x, hwas, hdir⟩, hspared, hb, hscratch, ?_⟩
  rw [hget', hget, Function.update_comm hne.symm, Function.update_idem, hwas]

theorem outcome_takeBackup_of_noFile {target : Path} (h : d.isFile target = false) (j : Journal) :
    outcome (takeBackup target) ⟨d, j⟩ = (.ok none, ⟨d, j⟩) := by
  rw [takeBackup, outcome_bind, outcome_get]
  dsimp only
  rw [if_neg (by simp [h])]
  rfl

/-- What is in the way is put aside, or no file is there, or nothing happens. -/
theorem outcome_takeBackup_cases (hd : d.Rooted) (hord : IsOrdinary target) (j : Journal) :
    (∃ e d', outcome (takeBackup target) ⟨d, j⟩ = (.error e, ⟨d', j⟩) ∧ d.SameTree d') ∨
      (outcome (takeBackup target) ⟨d, j⟩ = (.ok none, ⟨d, j⟩) ∧ d.isFile target = false) ∨
      ∃ q spot b d', outcome (takeBackup target) ⟨d, j⟩ = (.ok (some q), ⟨d', j⟩) ∧
        PutAside d target q spot b d' := by
  rw [takeBackup, outcome_bind, outcome_get]
  dsimp only
  by_cases hfile : d.isFile target = true
  · rw [if_pos hfile, outcome_bind, outcome_onDisk]
    rcases scratchFor_cases target [] with ⟨e, hout⟩ | ⟨q, b, hout, hq, hb, hscratch⟩
    · left
      exact ⟨_, d, by rw [hout], .refl d⟩
    rw [hout]
    dsimp only
    rw [outcome_bind, outcome_tryCatch, outcome_onDisk, outcome_moveFile]
    cases hmove : (d.put b (scratchEntry [])).movable target q with
    | error e =>
      left
      obtain ⟨-, hkeeps, -, hget⟩ := put_scratch hd hq hb
      have hbfile : View.HasFile (d.put b (scratchEntry [])).get? b :=
        ⟨_, _, by rw [hget, Function.update_self, scratchEntry]⟩
      refine ⟨.write target e, (removeFile q).after (d.put b (scratchEntry [])), rfl, ?_⟩
      rw [removeFile_after (hq.of_keepsWays hkeeps) hbfile]
      exact Disk.sameTree_erase_put hb _
    | ok lkx =>
      right; right
      obtain ⟨l, k, x⟩ := lkx
      exact ⟨q, l, b, _, rfl, putAside_of_movable hd hord hfile hq hb hscratch hmove⟩
  · rw [if_neg hfile]
    exact Or.inr (Or.inl ⟨rfl, by simpa using hfile⟩)

/-- What moves onto a target is the scratch file that waits for it. -/
theorem moved_of_movable (hq : e.Names w.pending.scratch w.spot false)
    (hholds : e.get? w.spot = some (scratchEntry w.bytes)) (hord : IsOrdinary w.pending.target)
    {x : Entry} (hmove : e.movable w.pending.scratch w.pending.target = .ok (l, k, x)) :
    l = w.spot ∧ x = scratchEntry w.bytes ∧ e.Names w.pending.target k false ∧
      ¬ e.HasDirectory k ∧ ¬ IsScratchSpot k := by
  obtain ⟨⟨parent, s, hplace, rfl⟩, hk, hl, -, hnot⟩ := Disk.movable_spec hmove
  obtain ⟨parent', s', hplace', -, hspot⟩ := hq
  rw [hplace] at hplace'
  cases hplace'
  refine ⟨hspot.symm, ?_, hk, hnot, hord.not_isScratchSpot hk⟩
  rw [hspot, hl] at hholds
  exact Option.some.inj hholds

/-- A staged file took its place as a move, with what was there put aside or nothing there. -/
structure Settled (d : Disk) (w : Waiting) (m : Move) (e : Disk) : Prop where
  target : m.target = w.pending.target
  bytes : m.bytes = w.bytes
  rooted : e.Rooted
  keepsWays : d.KeepsWays e
  named : m.NamedOn d
  content : e.get? m.spot = some (scratchEntry m.bytes)
  plain : ¬ IsScratchSpot m.spot
  spared : ¬ d.LeadsOn m.spot
  backup : ∀ q b, m.backup = some (q, b) → IsScratchSpot b ∧ d.get? b = none ∧ b ≠ m.spot ∧
    ∃ x, e.get? b = some x ∧ x.isDirectory = false
  undo : m.undo e.get? = Function.update d.get? w.spot none

namespace Settled

theorem holds (hm : Settled d w m e) : m.Holds e.get? :=
  ⟨⟨_, _, hm.content⟩, fun q b hb => (hm.backup q b hb).2.2⟩

theorem not_leadsOn (hm : Settled d w m e) (hl : l ∈ m.touched) : ¬ d.LeadsOn l := by
  rcases Move.mem_touched_iff.mp hl with rfl | ⟨q, hq⟩
  · exact hm.spared
  · exact Disk.not_leadsOn_of_absent (hm.backup q l hq).2.1

theorem taken (hm : Settled d w m e) (hl : l ∈ m.touched) : Taken e l := by
  rcases Move.mem_touched_iff.mp hl with rfl | ⟨q, hq⟩
  · exact .of_hasFile hm.holds.spot
  · obtain ⟨hscratch, -, -, x, hx, hdir⟩ := hm.backup q l hq
    cases x with
    | file c n => exact Or.inl ⟨c, n, hx⟩
    | directory n => simp [Entry.isDirectory] at hdir
    | link t => exact Or.inr ⟨hscratch, t, hx⟩

/-- A file that still waits is not where the move went. -/
theorem spot_not_mem (hm : Settled d w m e) {w' : Waiting} (hw' : w'.WaitsOn origin d) :
    w'.spot ∉ m.touched := by
  intro hmem
  rcases Move.mem_touched_iff.mp hmem with heq | ⟨q, hq⟩
  · exact hm.plain (heq ▸ hw'.scratch)
  · have hholds := hw'.holds
    simp [(hm.backup q _ hq).2.1] at hholds

/-- A file that has taken its place can be taken back. -/
theorem recoverable (hm : Settled d w m e) (h : Recoverable origin (w :: rest) moves made d)
    (htaken : ∀ l ∈ touchedBy moves, Taken d l) :
    Recoverable origin rest (m :: moves) made e ∧ ∀ l ∈ touchedBy (m :: moves), Taken e l := by
  have hwaits := h.waits w List.mem_cons_self
  refine ⟨h.place hm.rooted hm.keepsWays hm.holds hm.named hm.undo (fun l => hm.not_leadsOn)
    fun w' hw' => hm.spot_not_mem (h.waits w' (List.mem_cons_of_mem w hw')).1, fun l hl => ?_⟩
  by_cases hmem : l ∈ m.touched
  · exact hm.taken hmem
  · have hold := (mem_touchedBy_cons.mp hl).resolve_left hmem
    have hlw : l ≠ w.spot := by
      rintro rfl
      exact hwaits.2 hold
    refine (htaken l hold).of_eq ?_
    rw [← Move.undo_of_not_mem hmem e.get?, hm.undo, Function.update_of_ne hlw]

end Settled

theorem keepsWays_of_moved {y : Entry} (hl : View.HasFile d.get? l) (hk : d.get? k = none)
    (hget : e.get? = Function.update (Function.update d.get? l none) k (some y))
    (hw : e.workingDirectory = d.workingDirectory) : d.KeepsWays e := by
  refine ⟨hw, fun j hj => ?_⟩
  have hjk : j ≠ k := by
    rintro rfl
    exact Disk.not_leadsOn_of_absent hk hj
  have hjl : j ≠ l := by
    rintro rfl
    exact Disk.not_leadsOn_of_hasFile hl hj
  rw [hget, Function.update_of_ne hjk, Function.update_of_ne hjl]

/-- A staged file takes a place where nothing is. -/
theorem settled_free (hd : d.Rooted) (hwaits : w.WaitsOn origin d)
    (hk : d.Names w.pending.target k false) (hplain : ¬ IsScratchSpot k)
    (hnone : d.get? k = none) :
    Settled d w ⟨w.pending.target, k, w.bytes, none⟩
      ((d.erase w.spot).put k (scratchEntry w.bytes)) := by
  have hne : k ≠ w.spot := by
    rintro rfl
    exact hplain hwaits.scratch
  obtain ⟨hrooted, hget⟩ := rooted_of_moved hd hwaits.holds rfl hk
    (Disk.not_hasDirectory_of_absent hnone)
  refine ⟨rfl, rfl, hrooted, ?_, ⟨hk, by simp⟩, ?_, hplain, ?_, by simp, ?_⟩
  · exact keepsWays_of_moved hwaits.hasFile hnone hget rfl
  · rw [hget, Function.update_self]
  · exact Disk.not_leadsOn_of_absent hnone
  · rw [Move.undo_of_none rfl, hget, Function.update_idem, Function.update_eq_self_iff,
      Function.update_of_ne hne, hnone]

namespace PutAside

/-- A file that waits is neither what was put aside nor where it was put. -/
theorem spot_ne (ha : PutAside d w.pending.target q spot b d') (hwaits : w.WaitsOn origin d)
    (hord : IsOrdinary w.pending.target) : w.spot ≠ spot ∧ w.spot ≠ b := by
  constructor
  · rintro rfl
    exact hord.not_isScratchSpot ha.target hwaits.scratch
  · rintro rfl
    simpa [ha.free] using hwaits.holds

/-- The staged file still waits when what was in its way is put aside. -/
theorem holds (ha : PutAside d w.pending.target q spot b d') (hwaits : w.WaitsOn origin d)
    (hord : IsOrdinary w.pending.target) : d'.get? w.spot = some (scratchEntry w.bytes) := by
  obtain ⟨hws, hwb⟩ := ha.spot_ne hwaits hord
  rw [ha.entries, Function.update_of_ne hwb, Function.update_of_ne hws, hwaits.holds]

/-- A staged file takes the place of what was put aside. -/
theorem settled (ha : PutAside d w.pending.target q spot b d') (hwaits : w.WaitsOn origin d)
    (hord : IsOrdinary w.pending.target) :
    Settled d w ⟨w.pending.target, spot, w.bytes, some (q, b)⟩
      ((d'.erase w.spot).put spot (scratchEntry w.bytes)) := by
  have hholds := ha.holds hwaits hord
  obtain ⟨hws, hwb⟩ := ha.spot_ne hwaits hord
  obtain ⟨hrooted, hget⟩ := rooted_of_moved ha.rooted hholds rfl
    (ha.target.of_keepsWays ha.keepsWays) (Disk.not_hasDirectory_of_absent ha.spot_eq_none)
  have hget' := hget
  rw [← hholds] at hget'
  have hbackup := exchanged_backup ha.ne hwb ha.entries hget'
  obtain ⟨x, hx, hdir⟩ := ha.was
  refine ⟨rfl, rfl, hrooted, ?_, ⟨ha.target, ?_⟩, ?_, hord.not_isScratchSpot ha.target, ha.spared,
    ?_, undo_exchanged ha.free ha.ne hwb hws ha.entries hget' _ _ _⟩
  · exact ha.keepsWays.trans (keepsWays_of_moved ⟨_, _, hholds⟩ ha.spot_eq_none hget rfl)
  · rintro q' b' heq
    cases heq
    exact ha.backup
  · rw [hget, Function.update_self]
  · rintro q' b' heq
    cases heq
    exact ⟨ha.scratch, ha.free, ha.ne, x, hbackup.trans hx, hdir⟩

end PutAside

/-- Putting a staged file in place takes back what it did when it fails. When it succeeds, the file
took its place as a move, unless it took the place of a link that does not lead to a file: such a
link is not put aside, as only files are. -/
theorem outcome_settle_cases (hd : d.Rooted) (hwaits : w.WaitsOn origin d)
    (hq : d.Names w.pending.scratch w.spot false) (hord : IsOrdinary w.pending.target)
    (j : Journal) :
    (∃ e d', outcome (settle w.pending) ⟨d, j⟩ = (.error e, ⟨d', j⟩) ∧ d.SameTree d') ∨
      (∃ s l t, outcome (settle w.pending) ⟨d, j⟩ = (.ok (), s) ∧
        d.Names w.pending.target l false ∧ d.get? l = some (.link t) ∧
        d.isFile w.pending.target = false) ∨
      ∃ m d', outcome (settle w.pending) ⟨d, j⟩ =
          (.ok (), ⟨d', { j with placed := m.placed :: j.placed }⟩) ∧ Settled d w m d' := by
  have hne : ∀ {k}, ¬ IsScratchSpot k → w.spot ≠ k := by
    rintro k hplain rfl
    exact hplain hwaits.scratch
  rw [outcome_settle]
  rcases outcome_takeBackup_cases hd hord j with
    ⟨e, d', hout, hsame⟩ | ⟨hout, hnofile⟩ | ⟨q, spot, b, d', hout, ha⟩
  · exact Or.inl ⟨e, d', by rw [hout], hsame⟩
  · rw [hout]
    cases hmove : d.movable w.pending.scratch w.pending.target with
    | error e => exact Or.inl ⟨.write w.pending.target e, d, by simp only [hmove], .refl d⟩
    | ok lkx =>
      obtain ⟨l, k, x⟩ := lkx
      obtain ⟨rfl, rfl, hk, hnot, hplain⟩ := moved_of_movable hq hwaits.holds hord hmove
      right
      cases hx : d.get? k with
      | none =>
        refine Or.inr ⟨_, _, ?_, settled_free hd hwaits hk hplain hx⟩
        simp only [hmove, if_neg (hne hplain)]
        rfl
      | some x =>
        cases x with
        | file c n =>
          have hfile := hk.isFile ⟨c, n, hx⟩
          simp [hnofile] at hfile
        | directory n => exact absurd ⟨n, hx⟩ hnot
        | link t => exact Or.inl ⟨_, k, t, by simp only [hmove]; rfl, hk, hx, hnofile⟩
  · rw [hout]
    cases hmove : d'.movable w.pending.scratch w.pending.target with
    | error e =>
      exact Or.inl ⟨.write w.pending.target e, restored q w.pending.target d',
        by simp only [hmove], ha.restored⟩
    | ok lkx =>
      obtain ⟨l, k, x⟩ := lkx
      obtain ⟨rfl, rfl, hk, -, hplain⟩ :=
        moved_of_movable (hq.of_keepsWays ha.keepsWays) (ha.holds hwaits hord) hord hmove
      obtain rfl := hk.unique (ha.target.of_keepsWays ha.keepsWays)
      refine Or.inr (Or.inr ⟨_, _, ?_, ha.settled hwaits hord⟩)
      simp only [hmove, if_neg (hne hplain)]
      rfl
end ProtoForge.Output
