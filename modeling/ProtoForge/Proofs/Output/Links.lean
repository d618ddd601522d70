import ProtoForge.Proofs.Files.LinkCount
import ProtoForge.Proofs.Output.Atomicity
import ProtoForge.Proofs.Output.LinkPlacement
import ProtoForge.Proofs.Output.RootFiles

/-!
# Transactions among links

A commit that fails restores a tree with links exactly when it took away none:
a file is put in place of a link to a directory, or of a link to nothing,
without putting the link aside, and no later step brings it back.
-/
namespace ProtoForge.Output

open Files

variable {origin d d₁ d₂ d' : Disk} {waiting rest : List Waiting} {moves : List Move}
  {made : List Made} {w : Waiting} {l : Location} {p : Path} {t : Transaction} {e : Failure}
  {files : List (Path × Bytes)}

/-- Placing all staged files without taking away a link: whatever fails leaves the tree as it was
before staging. -/
theorem placeAll_recoverable (h : Recoverable origin waiting moves made d)
    (htaken : ∀ l ∈ touchedBy moves, Taken d l) (hlinks : LinksUnmentioned origin)
    (htargets : ∀ w ∈ waiting, Unmentioned w.pending.target)
    (hspare : ¬ LosesLink (waiting.map Waiting.pending) ⟨d, journalOf moves made⟩)
    {s : CommitState} (hfail : outcome (placeAll (waiting.map Waiting.pending))
      ⟨d, journalOf moves made⟩ = (.error e, s)) : origin.SameTree s.disk := by
  induction waiting generalizing moves made d with
  | nil => cases hfail
  | cons w rest ih =>
    rw [List.map_cons, LosesLink, not_or] at hspare
    rw [List.map_cons, outcome_placeAll_cons] at hfail
    rcases place_recoverable h htaken hlinks (htargets w List.mem_cons_self) hspare.1 with
      ⟨e', new, d', hout, h'⟩ | ⟨m, new, d', hout, h', htaken'⟩
    · rw [hout] at hfail
      cases hfail
      have hback := h'.discard.takenBack.discardAll
      rw [List.map_map]
      exact hback.sameTree
    · rw [hout] at hfail
      refine ih h' htaken' (fun w' hw' => htargets w' (List.mem_cons_of_mem w hw')) ?_ hfail
      exact fun hlost => hspare.2 ⟨_, hout, hlost⟩

/-- Staging files that succeeds: each of them waits. -/
theorem stageAll_recoverable (h : Recoverable origin waiting [] [] d)
    (hout : outcome (Transaction.stageAll ⟨waiting.map Waiting.pending⟩ files) d = (.ok t, d₁)) :
    ∃ waiting', t = ⟨waiting'.map Waiting.pending⟩ ∧ Recoverable origin waiting' [] [] d₁ ∧
      waiting'.map Waiting.output = waiting.map Waiting.output ++ files := by
  rcases outcome_stageAll_cases h files with
    ⟨e, d', hfail, -⟩ | ⟨waiting', d', hstaged, h', houtputs⟩
  · simp [hfail] at hout
  · rw [hstaged] at hout
    cases hout
    exact ⟨waiting', rfl, h', houtputs⟩

/-! ### Links that are lost -/

/-- The number of links on the disk of a commit. -/
noncomputable def CommitState.linkCount (s : CommitState) : ℕ := s.disk.linkCount

section Counting

open CommitAction CommitState

variable {α : Type}

theorem neverRaises_onDisk {a : FileAction α} (ha : NeverRaises Disk.linkCount a)
    (f : Fault → Failure) : NeverRaises linkCount (onDisk a f) := by
  rintro ⟨d, j⟩
  have hd := ha d
  rw [outcome_onDisk]
  generalize outcome a d = r at hd ⊢
  rcases r with ⟨e | x, d'⟩
  · exact hd
  · exact hd

theorem neverRaises_quietly {a : FileAction Unit} (ha : NeverRaises Disk.linkCount a) :
    NeverRaises linkCount (quietly a) := fun s => ha s.disk

theorem neverRaises_note (f : Journal → Journal) : NeverRaises linkCount (note f) :=
  fun _ => le_rfl

theorem neverRaises_scratchFor (target : Path) (b : Bytes) :
    NeverRaises Disk.linkCount (scratchFor target b) :=
  .bind .get fun d => neverRaises_makeScratch (nearestDirectory d target) scratchStem b

theorem neverRaises_makeAbove (target : Path) : NeverRaises linkCount (makeAbove target) := by
  rw [makeAbove]
  cases target.parent? with
  | none => exact .pure ()
  | some dir =>
    exact .bind .get fun s => .forM (fun p =>
      .bind (neverRaises_onDisk (neverRaises_makeDirectory p) _) fun _ => neverRaises_note _) _

theorem neverRaises_takeBackup (target : Path) : NeverRaises linkCount (takeBackup target) := by
  refine .bind .get fun s => ?_
  split
  · refine .bind (neverRaises_onDisk (neverRaises_scratchFor target []) _) fun backup => ?_
    refine .bind (.tryCatch (neverRaises_onDisk (neverRaises_moveFile target backup) _) ?_)
      fun _ => .pure _
    exact fun e => .bind (neverRaises_quietly (neverRaises_removeFile backup)) fun _ => .throw e
  · exact .pure none

theorem neverRaises_restore (backup target : Path) :
    NeverRaises linkCount (restore backup target) :=
  .bind (neverRaises_quietly (neverRaises_moveFile backup target)) fun _ =>
    neverRaises_quietly (neverRaises_removeFile backup)

theorem neverRaises_place (p : Pending) : NeverRaises linkCount (place p) := by
  have hmove := neverRaises_onDisk (neverRaises_moveFile p.scratch p.target) (.write p.target)
  rw [place_eq]
  refine .bind (neverRaises_makeAbove p.target) fun _ => ?_
  rw [settle]
  refine .bind (neverRaises_takeBackup p.target) fun backup => ?_
  refine .bind (.tryCatch hmove fun e => ?_) fun _ => neverRaises_note _
  cases backup with
  | none => exact .throw e
  | some b => exact .bind (neverRaises_restore b p.target) fun _ => .throw e

theorem neverRaises_rollBack : NeverRaises linkCount rollBack := by
  refine .bind .get fun s => .bind (.forM (fun p => ?_) _) fun _ => .forM (fun dir => ?_) _
  · rcases p with ⟨target, _ | backup⟩
    · exact neverRaises_quietly (neverRaises_removeFile target)
    · exact neverRaises_restore backup target
  · exact neverRaises_quietly (neverRaises_removeDirectory dir)

/-- A commit never makes a link, whether it succeeds or is rolled back. -/
theorem neverRaises_placeAll (ps : List Pending) : NeverRaises linkCount (placeAll ps) := by
  induction ps with
  | nil => exact .pure ()
  | cons p rest ih =>
    have hdiscard : ∀ q : Pending, NeverRaises linkCount (quietly (removeFile q.scratch)) :=
      fun q => neverRaises_quietly (neverRaises_removeFile q.scratch)
    refine .bind (.tryCatch (neverRaises_place p) fun e => ?_) fun _ => ih
    refine .bind (hdiscard p) fun _ => .bind neverRaises_rollBack fun _ => ?_
    exact .bind (.forM hdiscard rest) fun _ => .throw e

end Counting

/-- A staged file in place of a link leaves fewer links. -/
theorem linkCount_lt_of_settle (h : Recoverable origin (w :: rest) moves made d)
    (hord : IsOrdinary w.pending.target) {text : String} {s : CommitState}
    (hn : d.Names w.pending.target l false) (ht : d.get? l = some (.link text))
    (hfile : d.isFile w.pending.target = false)
    (hout : outcome (settle w.pending) ⟨d, journalOf moves made⟩ = (.ok (), s)) :
    s.disk.linkCount < d.linkCount := by
  have hwaits := (h.waits w List.mem_cons_self).1
  rw [outcome_settle, outcome_takeBackup_of_noFile hfile] at hout
  dsimp only at hout
  cases hmove : d.movable w.pending.scratch w.pending.target with
  | error e =>
    rw [hmove] at hout
    cases hout
  | ok lkx =>
    obtain ⟨l', k, x⟩ := lkx
    obtain ⟨rfl, rfl, hk, -, hplain⟩ :=
      moved_of_movable (hwaits.named.of_keepsWays h.keepsWays) hwaits.holds hord hmove
    obtain rfl := hk.unique hn
    have hne : w.spot ≠ k := by
      rintro rfl
      exact hplain hwaits.scratch
    rw [hmove] at hout
    dsimp only at hout
    rw [if_neg hne] at hout
    cases hout
    have hthere : (d.erase w.spot).get? k = some (.link text) := by
      rw [Disk.get?_erase_eq (Disk.ne_nil_of_hasFile hwaits.hasFile),
        Function.update_of_ne hne.symm, ht]
    calc ((d.erase w.spot).put k (scratchEntry w.bytes)).linkCount
        < (d.erase w.spot).linkCount :=
          Disk.linkCount_lt_of_update (Disk.get?_put_eq hn.ne_nil _) (by simp [scratchEntry]) hthere
      _ ≤ d.linkCount := d.linkCount_erase_le w.spot

/-- A step that takes away a link leaves fewer links. -/
theorem Pending.LosesLink.linkCount_lt (h : Recoverable origin (w :: rest) moves made d)
    (htaken : ∀ l ∈ touchedBy moves, Taken d l) (hlinks : LinksUnmentioned origin)
    (htarget : Unmentioned w.pending.target)
    (hlost : w.pending.LosesLink ⟨d, journalOf moves made⟩) :
    ∃ s, outcome (place w.pending) ⟨d, journalOf moves made⟩ = (.ok (), s) ∧
      s.disk.linkCount < d.linkCount := by
  obtain ⟨s₁, s₂, l, text, habove, hplace, hn, ht, hfile⟩ := hlost
  obtain ⟨r, new, d₁, habove', h₁, -⟩ := makeAbove_recoverable h htaken hlinks htarget
  have hle := neverRaises_makeAbove w.pending.target ⟨d, journalOf moves made⟩
  rw [habove] at habove' hle
  obtain ⟨rfl, rfl⟩ := Prod.mk.inj habove'
  refine ⟨s₂, hplace, ?_⟩
  rw [place_eq, outcome_bind, habove] at hplace
  exact (linkCount_lt_of_settle h₁ htarget.isOrdinary hn ht hfile hplace).trans_le hle

/-- Once a link is taken away, there are fewer links for good. -/
theorem LosesLink.linkCount_lt (h : Recoverable origin waiting moves made d)
    (htaken : ∀ l ∈ touchedBy moves, Taken d l) (hlinks : LinksUnmentioned origin)
    (htargets : ∀ w ∈ waiting, Unmentioned w.pending.target)
    (hlost : LosesLink (waiting.map Waiting.pending) ⟨d, journalOf moves made⟩) :
    (outcome (placeAll (waiting.map Waiting.pending)) ⟨d, journalOf moves made⟩).2.disk.linkCount <
      d.linkCount := by
  induction waiting generalizing moves made d with
  | nil => exact hlost.elim
  | cons w rest ih =>
    have hrest : ∀ s, outcome (place w.pending) ⟨d, journalOf moves made⟩ = (.ok (), s) →
        outcome (placeAll ((w :: rest).map Waiting.pending)) ⟨d, journalOf moves made⟩ =
          outcome (placeAll (rest.map Waiting.pending)) s := by
      intro s hs
      rw [List.map_cons, outcome_placeAll_cons, hs]
    rw [List.map_cons, LosesLink] at hlost
    by_cases hhead : w.pending.LosesLink ⟨d, journalOf moves made⟩
    · obtain ⟨s, hs, hlt⟩ := hhead.linkCount_lt h htaken hlinks (htargets w List.mem_cons_self)
      rw [hrest s hs]
      exact (neverRaises_placeAll _ s).trans_lt hlt
    · obtain ⟨s, hs, hlost⟩ := hlost.resolve_left hhead
      have hle := neverRaises_place w.pending ⟨d, journalOf moves made⟩
      rw [hs] at hle
      rw [hrest s hs]
      rcases place_recoverable h htaken hlinks (htargets w List.mem_cons_self) hhead with
        ⟨e, new, d', hout, -⟩ | ⟨m, new, d', hout, h', htaken'⟩
      · simp [hs] at hout
      · rw [hs] at hout
        cases hout
        have htargets' := fun w' hw' => htargets w' (List.mem_cons_of_mem w hw')
        exact (ih h' htaken' htargets' hlost).trans_le hle

/-- Staging neither adds nor removes links. -/
theorem Recoverable.linkCount_eq (h : Recoverable origin waiting [] [] d) :
    d.linkCount = origin.linkCount := by
  have hspots : d.linkSpots = origin.linkSpots := by
    ext l
    simp only [Disk.mem_linkSpots]
    by_cases hl : l ∈ waiting.map Waiting.spot
    · obtain ⟨w, hw, rfl⟩ := List.mem_map.mp hl
      have hwaits := (h.waits w hw).1
      simp [hwaits.holds, hwaits.free, scratchEntry]
    · rw [← h.undone l (by simp) hl, undoAll_nil]
  rw [Disk.linkCount, Disk.linkCount, hspots]

/-- Targets that are links are the same links afterwards, under the same names, and lead to what
they led to. -/
def KeepsTargetLinks (targets : List Path) (d e : Disk) : Prop :=
  ∀ p ∈ targets, ∀ l slash text, d.Names p l slash → d.get? l = some (.link text) →
    e.Names p l slash ∧ e.get? l = some (.link text) ∧ e.status p = d.status p

/-- A commit that fails restores the whole tree exactly when no step put a file in place of a link
that did not lead to one; then all targets that are links are as they were. -/
theorem failed_commit_restores_iff (hd : d.Rooted) (hlinks : LinksUnmentioned d)
    (htargets : ∀ f ∈ files, Unmentioned f.1)
    (hstage : outcome (Transaction.stageAll {} files) d = (.ok t, d₁))
    (hcommit : outcome t.commit d₁ = (.error e, d₂)) :
    (d.SameTree d₂ ↔ ¬ LosesLink t.pending ⟨d₁, {}⟩) ∧
      (¬ LosesLink t.pending ⟨d₁, {}⟩ → KeepsTargetLinks (files.map Prod.fst) d d₂) := by
  have hstart : Recoverable d [] [] [] d := .start hd
  obtain ⟨waiting, rfl, h, houtputs⟩ := stageAll_recoverable hstart hstage
  have htargets' : ∀ w ∈ waiting, Unmentioned w.pending.target := by
    intro w hw
    refine htargets w.output ?_
    rw [← List.nil_append files, ← List.map_nil (f := Waiting.output), ← houtputs]
    exact List.mem_map_of_mem hw
  rw [outcome_commit] at hcommit
  rcases hplaced : outcome (placeAll (waiting.map Waiting.pending)) ⟨d₁, {}⟩ with ⟨e' | u, s⟩
  · rw [hplaced] at hcommit
    cases hcommit
    have hsame : ¬ LosesLink (waiting.map Waiting.pending) ⟨d₁, {}⟩ → d.SameTree s.disk :=
      fun hspare => placeAll_recoverable h (by simp) hlinks htargets' hspare hplaced
    refine ⟨⟨fun hback hlost => ?_, hsame⟩, fun hspare p _ l slash text hn ht => ?_⟩
    · have hfewer := hlost.linkCount_lt h (by simp) hlinks htargets'
      change (outcome (placeAll (waiting.map Waiting.pending)) ⟨d₁, {}⟩).2.disk.linkCount < _
        at hfewer
      rw [hplaced, h.linkCount_eq, hback.linkCount_eq] at hfewer
      exact lt_irrefl _ hfewer
    · have hback := hsame hspare
      exact ⟨hn.of_keepsWays hback.keepsWays, by rw [hback.entries, ht], hback.status_eq p⟩
  · rw [hplaced] at hcommit
    cases hcommit

/-- A file, a directory and a link, all directly below the root. -/
def linkDisk (text : String) : Disk :=
  ⟨[(["f"], .file (.bytes [0]) 0o644), (["b"], .directory 0o755), (["l"], .link text)], []⟩

/-- A target that is the link, and one that is the directory. -/
def linkFiles : List (Path × Bytes) := [(rootPath "l", [1]), (rootPath "b", [2])]

theorem isEntryName_l : IsEntryName "l" := by decide

theorem isEntryName_f : IsEntryName "f" := by decide

theorem isEntryName_gone : IsEntryName "gone" := by decide

theorem isEntryName_b : IsEntryName "b" := by decide

/-- The disk once both targets are staged. -/
def linkDiskStaged (text : String) : Disk :=
  ⟨(linkDisk text).entries ++ [([scratch₀], scratchEntry [1]), ([scratch₁], scratchEntry [2])], []⟩

/-- The staged targets. -/
def linkTransaction : Transaction :=
  ⟨[⟨rootPath "l", rootPath scratch₀⟩, ⟨rootPath "b", rootPath scratch₁⟩]⟩

theorem rooted_linkDisk (text : String) : (linkDisk text).Rooted :=
  Disk.rooted_of_entries fun x hx => by
    simp only [linkDisk, List.mem_cons, List.not_mem_nil, or_false] at hx
    rcases hx with rfl | rfl | rfl <;> rfl

theorem linksUnmentioned_linkDisk {text : String} (h : Unmentioned ⟨text⟩) :
    LinksUnmentioned (linkDisk text) := by
  intro l u hu
  have hl : l ≠ [] := by
    rintro rfl
    simp [Disk.get?] at hu
  have hmem := Disk.mem_entries_of_get? hl hu
  simp only [linkDisk, List.mem_cons, Prod.mk.injEq, reduceCtorEq, and_false, Entry.link.injEq,
    List.not_mem_nil, or_false, false_or] at hmem
  rw [hmem.2]
  exact h

theorem unmentioned_linkFiles : ∀ f ∈ linkFiles, Unmentioned f.1 := by
  simpa [linkFiles] using ⟨isEntryName_l.unmentioned (by decide),
    isEntryName_b.unmentioned (by decide)⟩

theorem outcome_stage_linkFiles (text : String) :
    outcome (Transaction.stageAll {} linkFiles) (linkDisk text) =
      (.ok linkTransaction, linkDiskStaged text) :=
  outcome_stage_two isEntryName_l isEntryName_b (freshName_scratch₀ rfl) [1] [2]
    (freshName_scratch₁ (show 1 ≤ 4 by decide) (Option.some_ne_none _) rfl)

/-- A link to a file is back in place after a commit that fails at a later target. -/
theorem link_to_file_restored :
    ∃ e d₂, (linkDisk "f").Rooted ∧ LinksUnmentioned (linkDisk "f") ∧
      (∀ f ∈ linkFiles, Unmentioned f.1) ∧
      outcome (Transaction.stageAll {} linkFiles) (linkDisk "f") =
        (.ok linkTransaction, linkDiskStaged "f") ∧
      outcome linkTransaction.commit (linkDiskStaged "f") = (.error e, d₂) ∧
      ¬ LosesLink linkTransaction.pending ⟨linkDiskStaged "f", {}⟩ ∧
      (linkDisk "f").SameTree d₂ ∧ KeepsTargetLinks (linkFiles.map Prod.fst) (linkDisk "f") d₂ := by
  have hfile : (linkDiskStaged "f").isFile (rootPath "l") = true := by cbv
  have hfresh : (linkDiskStaged "f").freshName [] scratchStem = scratch₂ :=
    freshName_scratch₂ (by decide) (Option.some_ne_none _) (Option.some_ne_none _) rfl
  have hplace := outcome_place_over_root (j := {}) isEntryName_l isEntryName_scratch₀
    isEntryName_scratch₂ (by decide) (by decide) (by decide) hfresh (x := .link "f") rfl rfl hfile
    (b := [1]) rfl
  set d := ((((linkDiskStaged "f").put [scratch₂] (scratchEntry [])).erase ["l"]).put [scratch₂]
    (.link "f")).erase [scratch₀] |>.put ["l"] (scratchEntry [1]) with hd
  have hfail : ∀ j, outcome (place ⟨rootPath "b", rootPath scratch₁⟩) ⟨d, j⟩ =
      (.error (.write (rootPath "b") .isDirectory), ⟨d, j⟩) := fun j =>
    outcome_place_directory_root isEntryName_b isEntryName_scratch₁ ⟨0o755, rfl⟩ (b := [2]) rfl
  have hcommit : outcome linkTransaction.commit (linkDiskStaged "f") =
      (.error (.write (rootPath "b") .isDirectory),
        Journal.takenBack ⟨[], [⟨rootPath "l", some (rootPath scratch₂)⟩]⟩
          (discard (rootPath scratch₁) d)) := by
    rw [outcome_commit, linkTransaction, outcome_placeAll_cons, hplace]
    dsimp only
    rw [outcome_placeAll_cons, hfail]
    rfl
  have hspare : ¬ LosesLink linkTransaction.pending ⟨linkDiskStaged "f", {}⟩ := by
    rintro (⟨s₁, s₂, l, text, habove, -, -, -, hnofile⟩ | ⟨s, hs, hlater⟩)
    · rw [outcome_makeAbove_root isEntryName_l] at habove
      cases habove
      simp [hfile] at hnofile
    · rw [hplace] at hs
      cases hs
      rcases hlater with ⟨-, s₂, -, -, -, hb, -⟩ | ⟨s₂, hb, -⟩
      · simp [hfail] at hb
      · simp [hfail] at hb
  have hlinks : LinksUnmentioned (linkDisk "f") :=
    linksUnmentioned_linkDisk (isEntryName_f.unmentioned_text (by decide))
  have hstage := outcome_stage_linkFiles "f"
  have hrestored := failed_commit_restores_iff (rooted_linkDisk "f") hlinks unmentioned_linkFiles
    hstage hcommit
  exact ⟨_, _, rooted_linkDisk "f", hlinks, unmentioned_linkFiles, hstage, hcommit, hspare,
    hrestored.1.mpr hspare, hrestored.2 hspare⟩

/-- A dangling link is gone after a commit that fails at a later target. -/
theorem dangling_link_lost :
    ∃ e d₂, (linkDisk "gone").Rooted ∧ LinksUnmentioned (linkDisk "gone") ∧
      (∀ f ∈ linkFiles, Unmentioned f.1) ∧
      outcome (Transaction.stageAll {} linkFiles) (linkDisk "gone") =
        (.ok linkTransaction, linkDiskStaged "gone") ∧
      outcome linkTransaction.commit (linkDiskStaged "gone") = (.error e, d₂) ∧
      (linkDiskStaged "gone").get? ["l"] = some (.link "gone") ∧ d₂.get? ["l"] = none ∧
      ¬ KeepsTargetLinks (linkFiles.map Prod.fst) (linkDiskStaged "gone") d₂ := by
  have hnofile : (linkDiskStaged "gone").isFile (rootPath "l") = false := by cbv
  have hplace := outcome_place_root (j := {}) isEntryName_l isEntryName_scratch₀ (by decide) hnofile
    (b := [1]) rfl (by rintro ⟨m, hm⟩; cases hm)
  set d := ((linkDiskStaged "gone").erase [scratch₀]).put ["l"] (scratchEntry [1]) with hd
  have hfail : ∀ j, outcome (place ⟨rootPath "b", rootPath scratch₁⟩) ⟨d, j⟩ =
      (.error (.write (rootPath "b") .isDirectory), ⟨d, j⟩) := fun j =>
    outcome_place_directory_root isEntryName_b isEntryName_scratch₁ ⟨0o755, rfl⟩ (b := [2]) rfl
  have hdiscard : discard (rootPath scratch₁) d = d.erase [scratch₁] :=
    removeFile_after (isEntryName_scratch₁.names d) ⟨.bytes [2], scratchMode, rfl⟩
  have hremove : (removeFile (rootPath "l")).after (d.erase [scratch₁]) =
      (d.erase [scratch₁]).erase ["l"] :=
    removeFile_after (isEntryName_l.names _) ⟨.bytes [1], scratchMode, rfl⟩
  have hcommit : outcome linkTransaction.commit (linkDiskStaged "gone") =
      (.error (.write (rootPath "b") .isDirectory), (d.erase [scratch₁]).erase ["l"]) := by
    rw [outcome_commit, linkTransaction, outcome_placeAll_cons, hplace]
    dsimp only
    rw [outcome_placeAll_cons, hfail]
    dsimp only
    rw [hdiscard, ← hremove]
    rfl
  have hlinks : LinksUnmentioned (linkDisk "gone") :=
    linksUnmentioned_linkDisk (isEntryName_gone.unmentioned_text (by decide))
  have hlost : ((d.erase [scratch₁]).erase ["l"]).get? ["l"] = none := rfl
  refine ⟨_, _, rooted_linkDisk "gone", hlinks, unmentioned_linkFiles,
    outcome_stage_linkFiles "gone", hcommit, rfl, hlost, fun hkeeps => ?_⟩
  have hkept := (hkeeps (rootPath "l") List.mem_cons_self ["l"] false "gone"
    (isEntryName_l.names _) rfl).2.1
  rw [hlost] at hkept
  cases hkept

end ProtoForge.Output
