import ProtoForge.Proofs.Output.CommitSteps

/-!
# Progress without links

Among files and directories a path crosses nothing that a commit moves. So all
paths of a commit go on naming what they named when they were used, also those
of files and directories that later steps did not look at again.
-/
namespace ProtoForge.Output

open Files

/-- How far a commit among files and directories is: it can be taken back, and all its paths name
the locations that they stand for. -/
structure Progress (origin : Disk) (waiting : List Waiting) (moves : List Move) (made : List Made)
    (d : Disk) : Prop extends Recoverable origin waiting moves made d where
  plain : origin.LinkFree
  linkFree : d.LinkFree
  named : ∀ m ∈ moves, m.NamedOn d
  reached : ∀ g ∈ made, ∃ slash, d.Names g.path g.spot slash

variable {origin d e : Disk} {waiting rest : List Waiting} {moves : List Move} {made : List Made}
  {w : Waiting} {m : Move} {p : Path} {l : Location}

/-- Where no links were, a staged file that took its place leaves none. -/
theorem Settled.linkFree (hm : Settled d w m e) (hd : d.LinkFree) : e.LinkFree := by
  have hundone : ∀ l t, m.undo e.get? l ≠ some (.link t) := by
    intro l t
    rw [hm.undo]
    by_cases hl : l = w.spot
    · simp [hl]
    · rw [Function.update_of_ne hl]
      exact hd l t
  intro l t ht
  by_cases hl : l ∈ m.touched
  · rcases Move.mem_touched_iff.mp hl with rfl | ⟨q, hq⟩
    · simp [hm.content, scratchEntry] at ht
    · -- what was put aside goes back to the spot when the move is undone
      refine hundone m.spot t ?_
      rw [Move.undo_of_some hq, Function.update_self, ht]
  · exact hundone l t (by rw [Move.undo_of_not_mem hl, ht])

namespace Progress

theorem tree (h : Progress origin waiting moves made d) : d.IsTree := ⟨h.linkFree, h.rooted⟩

theorem start (ho : origin.IsTree) : Progress origin [] [] [] origin :=
  ⟨.start ho.rooted, ho.linkFree, ho.linkFree, by simp, by simp⟩

/-- Staging adds no links. -/
theorem of_staged (h : Recoverable origin waiting [] [] d) (ho : origin.LinkFree) :
    Progress origin waiting [] [] d := by
  refine ⟨h, ho, fun l t ht => ?_, by simp, by simp⟩
  by_cases hl : l ∈ waiting.map Waiting.spot
  · obtain ⟨w, hw, rfl⟩ := List.mem_map.mp hl
    simp [(h.waits w hw).1.holds, scratchEntry] at ht
  · refine ho l t ?_
    rw [← h.undone l (by simp) hl, undoAll_nil, ht]

/-- Making a directory, while moved files are files. -/
theorem make (h : Progress origin waiting moves made d)
    (hfiles : ∀ l ∈ touchedBy moves, View.HasFile d.get? l) {slash : Bool}
    (hn : d.Names p l slash) (hl : d.get? l = none) (mode : ℕ) :
    Progress origin waiting moves (⟨p, l, mode⟩ :: made) (d.put l (.directory mode)) := by
  have hget := Disk.get?_put_eq (d := d) hn.ne_nil (.directory mode)
  have hkeeps : d.KeepsWays (d.put l (.directory mode)) :=
    .of_update rfl hget (Disk.not_leadsOn_of_absent hl)
  have htaken : ∀ k ∈ touchedBy moves, Taken d k := fun k hk => .of_hasFile (hfiles k hk)
  refine ⟨h.toRecoverable.make htaken hn (fun e => h.names_of_linkFree h.linkFree htaken hn) hl mode,
    h.plain, fun k t ht => ?_, fun m hm => (h.named m hm).of_keepsWays hkeeps, fun g hg => ?_⟩
  · rw [hget] at ht
    by_cases hkl : k = l
    · simp [hkl] at ht
    · rw [Function.update_of_ne hkl] at ht
      exact h.linkFree k t ht
  · rcases List.mem_cons.mp hg with rfl | hg
    · exact ⟨slash, hn.of_keepsWays hkeeps⟩
    · obtain ⟨slash', hn'⟩ := h.reached g hg
      exact ⟨slash', hn'.of_keepsWays hkeeps⟩

/-- A staged file takes its place, while moved files are files. -/
theorem settle (h : Progress origin (w :: rest) moves made d)
    (hfiles : ∀ l ∈ touchedBy moves, View.HasFile d.get? l) (hm : Settled d w m e) :
    Progress origin rest (m :: moves) made e := by
  have htaken : ∀ k ∈ touchedBy moves, Taken d k := fun k hk => .of_hasFile (hfiles k hk)
  refine ⟨(hm.recoverable h.toRecoverable htaken).1, h.plain, hm.linkFree h.linkFree,
    fun m' hm' => ?_, fun g hg => ?_⟩
  · rcases List.mem_cons.mp hm' with rfl | hm'
    · exact hm.named.of_keepsWays hm.keepsWays
    · exact (h.named m' hm').of_keepsWays hm.keepsWays
  · obtain ⟨slash, hn⟩ := h.reached g hg
    exact ⟨slash, hn.of_keepsWays hm.keepsWays⟩

end Progress

end ProtoForge.Output
