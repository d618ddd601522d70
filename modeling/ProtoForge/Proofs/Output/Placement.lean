import ProtoForge.Proofs.Output.Progress

/-!
# Placing staged files

One step of a commit among files and directories: the missing directories
above a target are made, a file in the way is put aside, and the staged file
takes its place. A step that fails leaves what can be rolled back.
-/
namespace ProtoForge.Output

open Files

variable {origin d e : Disk} {waiting rest : List Waiting} {moves : List Move}
  {made : List Made} {w : Waiting} {m : Move} {p : Path} {l : Location}

/-- What stands on the disk of a commit that goes well: moved files lie at their spots, unless a
later one took their place, and what they replaced lies at scratch names that were free. -/
structure Standing (origin : Disk) (moves : List Move) (made : List Made) (d : Disk) : Prop where
  files : ∀ l ∈ touchedBy moves, View.HasFile d.get? l
  latest : ∀ l m, moves.find? (·.spot = l) = some m → d.get? l = some (scratchEntry m.bytes)
  backups : ∀ m ∈ moves, ∀ q b, m.backup = some (q, b) → IsScratchSpot b ∧ origin.get? b = none
  spots : ∀ m ∈ moves, ¬ IsScratchSpot m.spot
  inherited : ∀ g ∈ made, g.mode = d.inheritedMode g.spot.dropLast

namespace Standing

theorem start (origin d : Disk) : Standing origin [] [] d where
  files := by simp
  latest := by simp
  backups := by simp
  spots := by simp
  inherited := by simp

theorem ne_none (hs : Standing origin moves made d) (l : Location) (hl : l ∈ touchedBy moves) :
    d.get? l ≠ none :=
  (Taken.of_hasFile (hs.files l hl)).ne_none

theorem not_hasDirectory (hs : Standing origin moves made d) (l : Location)
    (hl : l ∈ touchedBy moves) : ¬ d.HasDirectory l :=
  Disk.not_hasDirectory_of_hasFile (hs.files l hl)

/-- A directory that is made at a free place does not change what stands. -/
theorem make (hs : Standing origin moves made d) (h : Recoverable origin waiting moves made d)
    {slash : Bool} (hn : d.Names p l slash) (hl : d.get? l = none) :
    Standing origin moves (⟨p, l, d.inheritedMode l.dropLast⟩ :: made)
      (d.put l (.directory (d.inheritedMode l.dropLast))) := by
  have hget := Disk.get?_put_eq (d := d) hn.ne_nil (.directory (d.inheritedMode l.dropLast))
  have hkeeps := Disk.keeps_put hn.ne_nil (Disk.not_hasDirectory_of_absent hl)
    (.directory (d.inheritedMode l.dropLast))
  have hold : ∀ k x, d.get? k = some x →
      (d.put l (.directory (d.inheritedMode l.dropLast))).get? k = some x := by
    intro k x hk
    have hkl : k ≠ l := by
      rintro rfl
      simp [hl] at hk
    rw [hget, Function.update_of_ne hkl, hk]
  constructor
  · intro k hk
    obtain ⟨c, n, hfile⟩ := hs.files k hk
    exact ⟨c, n, hold k _ hfile⟩
  · exact fun k m hm => hold k _ (hs.latest k m hm)
  · exact hs.backups
  · exact hs.spots
  · intro g hg
    rcases List.mem_cons.mp hg with rfl | hg
    · obtain ⟨parent, s, rfl, hparent⟩ := hn.inDirectory
      rw [List.dropLast_concat] at hkeeps ⊢
      exact (hkeeps.inheritedMode_eq hparent).symm
    · exact h.inherited_of_keeps h.rooted hs.inherited hkeeps hg

/-- A staged file that takes its place is what stands there. -/
theorem settle (hs : Standing origin moves made d) (h : Recoverable origin (w :: rest) moves made d)
    (hm : Settled d w m e) (he : e.LinkFree) : Standing origin (m :: moves) made e := by
  have hwaits := h.waits w List.mem_cons_self
  have hold : ∀ l ∈ touchedBy moves, l ≠ m.spot → e.get? l = d.get? l := by
    intro l hl hne
    obtain ⟨c, n, hfile⟩ := hs.files l hl
    have htouched : l ∉ m.touched := by
      intro hmem
      rcases Move.mem_touched_iff.mp hmem with heq | ⟨q, hq⟩
      · exact hne heq
      · simp [(hm.backup q l hq).2.1] at hfile
    have hlw : l ≠ w.spot := by
      rintro rfl
      exact hwaits.2 hl
    rw [← Move.undo_of_not_mem htouched e.get?, hm.undo, Function.update_of_ne hlw]
  constructor
  · intro l hl
    by_cases hls : l = m.spot
    · exact hls ▸ hm.holds.spot
    rcases mem_touchedBy_cons.mp hl with hmem | hmem
    · rcases hm.taken hmem with hfile | ⟨-, t, ht⟩
      · exact hfile
      · exact absurd ht (he l t)
    · obtain ⟨c, n, hfile⟩ := hs.files l hmem
      exact ⟨c, n, by rw [hold l hmem hls, hfile]⟩
  · intro l m' hm'
    by_cases hls : m.spot = l
    · rw [List.find?_cons_of_pos (by simpa using hls)] at hm'
      obtain rfl := Option.some.inj hm'
      rw [← hls, hm.content]
    · rw [List.find?_cons_of_neg (by simpa using hls)] at hm'
      have hmem : l ∈ touchedBy moves := by
        have hspot' : m'.spot = l := by simpa using List.find?_some hm'
        exact List.mem_flatMap.mpr
          ⟨m', List.mem_of_find?_eq_some hm', hspot' ▸ m'.spot_mem_touched⟩
      rw [hold l hmem (Ne.symm hls), hs.latest l m' hm']
  · intro m' hm' q b hqb
    rcases List.mem_cons.mp hm' with rfl | hm'
    · obtain ⟨hscratch, hnone, -⟩ := hm.backup q b hqb
      exact ⟨hscratch, (h.free_of_absent hs.ne_none hnone).2⟩
    · exact hs.backups m' hm' q b hqb
  · intro m' hm'
    rcases List.mem_cons.mp hm' with rfl | hm'
    · exact hm.plain
    · exact hs.spots m' hm'
  · exact fun g hg => h.inherited_of_keeps h.rooted hs.inherited hm.keepsWays.keeps hg

end Standing

/-- Making a directory keeps progress and what stands. -/
theorem progress_make (p : Path) :
    KeptByMaking (fun made d => Progress origin waiting moves made d ∧
      Standing origin moves made d) p := by
  rintro made d l slash ⟨h, hs⟩ hn hl
  exact ⟨h.make hs.files hn hl _, hs.make h.toRecoverable hn hl⟩

/-- Putting a staged file in place succeeds as a move that can be undone, or changes nothing that
matters. -/
theorem settle_cases (h : Progress origin (w :: rest) moves made d)
    (hs : Standing origin moves made d) (hord : IsOrdinary w.pending.target) :
    (∃ e d', outcome (settle w.pending) ⟨d, journalOf moves made⟩ =
        (.error e, ⟨d', journalOf moves made⟩) ∧ Recoverable origin (w :: rest) moves made d') ∨
      ∃ m d', outcome (settle w.pending) ⟨d, journalOf moves made⟩ =
          (.ok (), ⟨d', journalOf (m :: moves) made⟩) ∧
        m.target = w.pending.target ∧ m.bytes = w.bytes ∧
        Progress origin rest (m :: moves) made d' ∧ Standing origin (m :: moves) made d' := by
  have hwaits := (h.waits w List.mem_cons_self).1
  rcases outcome_settle_cases h.rooted hwaits (hwaits.named.of_keepsWays h.keepsWays) hord
      (journalOf moves made) with
    ⟨e, d', hout, hsame⟩ | ⟨s, l, t, -, -, ht, -⟩ | ⟨m, d', hout, hm⟩
  · exact Or.inl ⟨e, d', hout, h.toRecoverable.of_sameTree hsame⟩
  · exact absurd ht (h.linkFree l t)
  · have h' := h.settle hs.files hm
    exact Or.inr ⟨m, d', hout, hm.target, hm.bytes, h', hs.settle h.toRecoverable hm h'.linkFree⟩

/-- The directories that are made above a target lie above the spot that it names in the end. -/
theorem prefix_of_made (hd : d.LinkFree) {dir target : Path} {slash : Bool}
    (hparent : target.parent? = some dir) (htarget : d.Names target l slash) {new : List Made}
    {f : Path → Bool} (hpaths : new.map Made.path = dir.ancestors.takeWhile f)
    (hnew : ∀ g ∈ new, g.StandsOn d ∧ ∃ slash, d.Names g.path g.spot slash) {g : Made}
    (hg : g ∈ new) : g.spot <+: l := by
  obtain ⟨hfirst, hchain⟩ : dir.ancestors.head? = some dir ∧
      dir.ancestors.IsChain fun a b : Path => a.parent? = some b :=
    Disk.parentsWithin_chain dir.components.length dir
  have hdir : ∀ q ∈ dir.ancestors.takeWhile f,
      ∃ l slash, d.Names q l slash ∧ d.HasDirectory l := by
    intro q hq
    rw [← hpaths] at hq
    obtain ⟨g, hg, rfl⟩ := List.mem_map.mp hq
    obtain ⟨hstands, slash, hn⟩ := hnew g hg
    exact ⟨g.spot, slash, hn, g.mode, hstands⟩
  obtain ⟨-, slash', hn⟩ := hnew g hg
  have hmem : g.path ∈ dir.ancestors.takeWhile f := hpaths ▸ List.mem_map_of_mem hg
  have htaken : (dir.ancestors.takeWhile f).IsChain fun a b => a.parent? = some b := by
    have hall : (dir.ancestors.takeWhile f ++ dir.ancestors.dropWhile f).IsChain
        fun a b => a.parent? = some b := by
      rwa [List.takeWhile_append_dropWhile]
    exact hall.left_of_append
  have hhead : ∀ p ∈ (dir.ancestors.takeWhile f).head?, d.locate p true = .ok l.dropLast := by
    intro p hp
    obtain ⟨l', slash'', ⟨parent, s, hplace, -, -⟩, -⟩ := hdir p (List.mem_of_mem_head? hp)
    obtain ⟨htext, -⟩ := (Disk.place_eq_name_iff hd).mp hplace
    obtain rfl : p = dir := by
      rw [List.head?_takeWhile, hfirst] at hp
      simpa using (Option.mem_filter_iff.mp hp).1.symm
    exact Disk.locate_parent hd htarget hparent htext
  exact (Disk.prefix_of_chain hd htaken hhead hdir hmem hn).trans (List.dropLast_prefix l)

/-- One step of a commit puts a staged file in place, or leaves what can be rolled back. -/
theorem place_cases (h : Progress origin (w :: rest) moves made d)
    (hs : Standing origin moves made d) (hord : IsOrdinary w.pending.target) :
    (∃ e new d', outcome (place w.pending) ⟨d, journalOf moves made⟩ =
        (.error e, ⟨d', journalOf moves (new ++ made)⟩) ∧
          Recoverable origin (w :: rest) moves (new ++ made) d') ∨
      ∃ m new d', outcome (place w.pending) ⟨d, journalOf moves made⟩ =
          (.ok (), ⟨d', journalOf (m :: moves) (new ++ made)⟩) ∧
        m.target = w.pending.target ∧ m.bytes = w.bytes ∧
        Progress origin rest (m :: moves) (new ++ made) d' ∧
        Standing origin (m :: moves) (new ++ made) d' ∧ ∀ g ∈ new, g.spot <+: m.spot := by
  rw [place_eq, outcome_bind]
  have hkept : ∀ dir, w.pending.target.parent? = some dir → ∀ p ∈ dir.ancestors, KeptByMaking
      (fun made d => Progress origin (w :: rest) moves made d ∧ Standing origin moves made d) p :=
    fun _ _ p _ => progress_make p
  obtain ⟨r, new, d₁, hout, ⟨h₁, hs₁⟩, habove⟩ := outcome_makeAbove hkept ⟨h, hs⟩ moves
  rw [hout]
  cases r with
  | error e => exact Or.inl ⟨e, new, d₁, rfl, h₁.toRecoverable⟩
  | ok u =>
    dsimp only
    rcases settle_cases h₁ hs₁ hord with
      ⟨e, d₂, hsettle, h₂⟩ | ⟨m, d₂, hsettle, htarget, hbytes, h₂, hs₂⟩
    · exact Or.inl ⟨e, new, d₂, hsettle, h₂⟩
    · refine Or.inr ⟨m, new, d₂, hsettle, htarget, hbytes, h₂, hs₂, fun g hg => ?_⟩
      rcases habove rfl with rfl | ⟨dir, missing, hparent, hpaths⟩
      · simp at hg
      · have hn := (h₂.named m List.mem_cons_self).1
        rw [htarget] at hn
        refine prefix_of_made h₂.linkFree hparent hn hpaths (fun g' hg' => ?_) hg
        have hmem := List.mem_append_left made hg'
        exact ⟨(h₂.fresh g' hmem).1, h₂.reached g' hmem⟩

end ProtoForge.Output
