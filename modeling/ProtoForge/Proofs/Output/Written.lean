import ProtoForge.Proofs.Output.Atomicity

/-!
# What a transaction wrote

After files were written as one unit, each path leads to what was given last
for the place that it leads to.
-/
namespace ProtoForge.Output

open Files

variable {origin d e : Disk} {files : List (Path × Bytes)} {paths : List Path} {moves : List Move}
  {written : List (Location × Bytes)} {l : Location}

/-- The files of a list are where their paths lead: each place holds what came last for it. -/
structure Stored (files : List (Path × Bytes)) (d : Disk) : Prop where
  linkFree : d.LinkFree
  leads : ∀ f ∈ files, ∃ l, d.locate f.1 true = .ok l
  last : ∀ before f after, files = before ++ f :: after →
    (∀ g ∈ after, d.locate g.1 true ≠ d.locate f.1 true) → d.read f.1 = .ok (.bytes f.2)

/-- A location that was written to holds a file, and what is new above one is a directory. -/
theorem Wrote.linkFree (h : Wrote origin written d) (ho : origin.LinkFree) : d.LinkFree := by
  intro l t hl
  by_cases hmem : l ∈ written.map Prod.fst
  · have hmem' : l ∈ written.reverse.map Prod.fst := by simpa using hmem
    cases hlookup : written.reverse.lookup l with
    | none =>
      obtain ⟨w, hw, rfl⟩ := List.mem_map.mp hmem
      simpa using List.lookup_eq_none_iff.mp hlookup w (List.mem_reverse.mpr hw)
    | some b =>
      rw [h.contents l b hlookup] at hl
      simp [scratchEntry] at hl
  · by_cases habove : origin.get? l = none ∧ ∃ w ∈ written, l <+: w.1
    · obtain ⟨hnone, w, hw, hlw⟩ := habove
      have hne : l ≠ w.1 := fun heq => hmem (heq ▸ List.mem_map_of_mem hw)
      rw [h.parents l hnone ⟨w, hw, hlw, hne⟩] at hl
      simp at hl
    · rw [h.others l hmem fun hnone w hw hlw => habove ⟨hnone, w, hw, hlw⟩] at hl
      exact ho l t hl

theorem read_of_locate {p : Path} {b : Bytes} (hl : d.locate p true = .ok l)
    (hb : d.get? l = some (scratchEntry b)) : d.read p = .ok (.bytes b) := by
  simp [Disk.read, Disk.status, hl, hb, scratchEntry]

/-- The content of a place is the one that was written there last. -/
theorem Wrote.stored (h : Wrote origin (writtenBy moves) d) (ho : origin.LinkFree)
    (hleads : ∀ m ∈ moves, d.locate m.target true = .ok m.spot) :
    Stored (moves.reverse.map Move.output) d := by
  refine ⟨h.linkFree ho, ?_, ?_⟩
  · intro f hf
    obtain ⟨m, hm, rfl⟩ := List.mem_map.mp hf
    exact ⟨m.spot, hleads m (List.mem_reverse.mp hm)⟩
  · intro before f after hsplit hlater
    obtain ⟨earlier, rest, hmoves, -, hrest⟩ := List.map_eq_append_iff.mp hsplit
    obtain ⟨m, later, rfl, rfl, rfl⟩ := List.map_eq_cons_iff.mp hrest
    have hmem : ∀ m' ∈ m :: later, m' ∈ moves := fun m' hm' =>
      List.mem_reverse.mp (hmoves ▸ List.mem_append_right earlier hm')
    have hspot := hleads m (hmem m List.mem_cons_self)
    refine read_of_locate hspot (h.contents m.spot m.bytes ?_)
    -- the moves to come went elsewhere, so this one is found first from the end
    have hnone : (later.reverse.map fun m => (m.spot, m.bytes)).lookup m.spot = none := by
      rw [List.lookup_eq_none_iff]
      intro x hx
      obtain ⟨m', hm', rfl⟩ := List.mem_map.mp hx
      have hm'' := List.mem_reverse.mp hm'
      have hne : m'.spot ≠ m.spot := by
        intro heq
        refine hlater m'.output (List.mem_map_of_mem hm'') ?_
        rw [Move.output, Move.output, hspot, hleads m' (hmem m' (List.mem_cons_of_mem m hm'')), heq]
      simpa using hne.symm
    rw [writtenBy, hmoves, ← List.map_reverse, List.reverse_append, List.reverse_cons,
      List.map_append, List.map_append, List.lookup_append, List.lookup_append, hnone]
    simp

/-- Writing files as one unit on a tree, if it succeeds, stores all of them. -/
theorem writeAll_ok (hd : d.IsTree) (hord : ∀ f ∈ files, IsOrdinary f.1)
    (h : outcome (writeAll files) d = (.ok paths, e)) :
    paths = files.map Prod.fst ∧ e.workingDirectory = d.workingDirectory ∧ Stored files e := by
  rw [writeAll, outcome_bind] at h
  rcases stageAll_cases (.start hd) files with
    ⟨f, d₁, hout, -⟩ | ⟨waiting, d₁, hout, hprogress, houtputs⟩
  · change outcome (Transaction.stageAll {} files) d = _ at hout
    simp [hout] at h
  change outcome (Transaction.stageAll {} files) d = _ at hout
  rw [hout] at h
  dsimp only at h
  have hfiles : waiting.map Waiting.output = files := by simpa using houtputs
  have htargets : ∀ w ∈ waiting, IsOrdinary w.pending.target := fun w hw =>
    hord w.output (hfiles ▸ List.mem_map_of_mem hw)
  rcases commit_cases hprogress htargets with
    ⟨f, d₂, hcommit, -⟩ | ⟨moves, d₂, hcommit, hmoves, hwrote, hleads⟩
  · simp [hcommit] at h
  rw [hcommit] at h
  obtain ⟨hpaths, rfl⟩ := Prod.mk.inj h
  refine ⟨?_, hwrote.workingDirectory, ?_⟩
  · rw [← Except.ok.inj hpaths, ← hfiles, List.map_map]
    rfl
  · rw [← hfiles, ← hmoves]
    exact hwrote.stored hd.linkFree hleads

end ProtoForge.Output
