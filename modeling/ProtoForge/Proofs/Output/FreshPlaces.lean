import ProtoForge.Proofs.Output.Sites

/-!
# Files in fresh places

Files that are written to a free site find it free to the end: the directories
that one of them needs are there or missing, never a file, and nothing lies
where it goes. So every step of the transaction succeeds, and the new files
with the directories above them are all that changes.
-/
namespace ProtoForge.Output

open Files

variable {s : Site} {origin d d' e : Disk} {waiting rest : List Waiting} {moves : List Move}
  {made : List Made} {w : Waiting} {t target p q : Path} {names ps : List String} {k l : Location}
  {n : String} {files : List (Path × Bytes)}

/-- How far a commit at a free site is. What was moved lies at its target with nothing put aside,
and directories were made above targets only, with the permissions that the ones above pass on. -/
structure Underway (s : Site) (origin : Disk) (waiting : List Waiting) (moves : List Move)
    (made : List Made) (d : Disk) : Prop extends Accounted origin waiting moves made d where
  rooted : d.Rooted
  keepsWays : origin.KeepsWays d
  placed : ∀ m ∈ moves, m.backup = none ∧ d.get? m.spot = some (scratchEntry m.bytes) ∧
    ∃ names, s.Aims m.target names ∧ m.spot = s.spot ++ names
  above : ∀ g ∈ made, ∃ t ∈ s.targets, ∃ names ps, s.Aims t names ∧ ps <+: names ∧ ps ≠ names ∧
    g.spot = s.spot ++ ps
  inherited : ∀ g ∈ made, g.mode = d.inheritedMode g.spot.dropLast

/-- A target that is yet to be placed: it is apart from all that were. -/
structure Next (s : Site) (moves : List Move) (target : Path) (names : List String) : Prop where
  mem : target ∈ s.targets
  aims : s.Aims target names
  apart : ∀ m ∈ moves, Apart m.target target

namespace Underway

/-- Before anything is placed. -/
theorem of_staged (h : Recoverable origin waiting [] [] d) : Underway s origin waiting [] [] d where
  toAccounted := h.toAccounted
  rooted := h.rooted
  keepsWays := h.keepsWays
  placed := by simp
  above := by simp
  inherited := by simp

/-- What was neither made nor moved nor waits is as it was. -/
theorem get?_eq (h : Underway s origin waiting moves made d) (hmade : l ∉ made.map Made.spot)
    (hmoves : ∀ m ∈ moves, l ≠ m.spot) (hwaiting : l ∉ waiting.map Waiting.spot) :
    d.get? l = origin.get? l := by
  have htouched : l ∉ touchedBy moves := by
    intro hmem
    obtain ⟨m, hm, hl⟩ := List.mem_flatMap.mp hmem
    rcases Move.mem_touched_iff.mp hl with heq | ⟨q, hq⟩
    · exact hmoves m hm heq
    · simp [(h.placed m hm).1] at hq
  rw [← h.undone l hmade hwaiting, undoAll_of_not_mem htouched]

theorem hasDirectory_made (h : Underway s origin waiting moves made d) {g : Made} (hg : g ∈ made) :
    d.HasDirectory g.spot :=
  ⟨g.mode, (h.fresh g hg).1⟩

/-- On the way to a target that is yet to be placed there are directories or nothing. -/
theorem directory_or_absent (h : Underway s origin waiting moves made d) (ho : origin.Rooted)
    (hs : s.IsFree origin) (hnext : Next s moves target names) (hps : ps <+: names) (hne : ps ≠ []) :
    d.HasDirectory (s.spot ++ ps) ∨ d.get? (s.spot ++ ps) = none := by
  by_cases hmade : s.spot ++ ps ∈ made.map Made.spot
  · obtain ⟨g, hg, hspot⟩ := List.mem_map.mp hmade
    exact Or.inl (hspot ▸ h.hasDirectory_made hg)
  refine Or.inr ((h.get?_eq hmade (fun m hm heq => ?_) fun hwaiting => ?_).trans
    (hs.absent ho hnext.mem hnext.aims hps hne))
  · obtain ⟨-, -, names', haims, hspot⟩ := h.placed m hm
    obtain rfl : ps = names' := List.append_cancel_left (heq.trans hspot)
    exact haims.not_isPrefix hnext.aims (hnext.apart m hm) hps
  · obtain ⟨w, hw, hspot⟩ := List.mem_map.mp hwaiting
    exact hnext.aims.not_isScratchSpot hps hne (hspot ▸ (h.waits w hw).1.scratch)

/-- Where a target is yet to be placed there is nothing. -/
theorem target_absent (h : Underway s origin waiting moves made d) (ho : origin.Rooted)
    (hs : s.IsFree origin) (hnext : Next s moves target names) : d.get? (s.spot ++ names) = none := by
  refine (h.directory_or_absent ho hs hnext List.prefix_rfl hnext.aims.ne_nil).resolve_left ?_
  rintro ⟨n, hn⟩
  have hold := hs.absent ho hnext.mem hnext.aims List.prefix_rfl hnext.aims.ne_nil
  have hmade : s.spot ++ names ∈ made.map Made.spot := by
    by_contra hmade
    refine absurd ((h.get?_eq hmade (fun m hm heq => ?_) fun hwaiting => ?_).symm.trans hn) (by simp [hold])
    · simp [heq, (h.placed m hm).2.1, scratchEntry] at hn
    · obtain ⟨w, hw, hspot⟩ := List.mem_map.mp hwaiting
      simp [← hspot, (h.waits w hw).1.holds, scratchEntry] at hn
  obtain ⟨g, hg, hspot⟩ := List.mem_map.mp hmade
  obtain ⟨u, hu, names', ps, haims, hps, hne, habove⟩ := h.above g hg
  obtain rfl : names = ps := List.append_cancel_left (hspot.symm.trans habove)
  -- a target above another one would be in its way
  by_cases heq : target = u
  · subst heq
    exact hne (hnext.aims.unique haims)
  · have hapart := hs.apart.forall hnext.mem hu heq
    exact hnext.aims.not_isPrefix haims hapart hps

/-- A path below the site, as far as directories go, opens what its names lead to. -/
theorem opens_below (h : Underway s origin waiting moves made d) (hs : s.IsFree origin)
    (hq : q.components = s.base.components ++ ps.map .name)
    (hlegal : ∀ n ∈ ps, Disk.IsFileName n) (hdir : d.HasDirectory (s.spot ++ ps)) :
    d.Opens q (s.spot ++ ps) := by
  refine (hs.opens.keepsWays h.keepsWays).below hq hlegal fun qs hqs => ?_
  by_cases heq : qs = ps
  · rwa [heq]
  · obtain ⟨m, hm⟩ := hdir
    refine h.rooted.hasDirectory_of_prefix ?_ ?_ (k := s.spot ++ ps) (by simp [hm])
    · rwa [List.prefix_append_right_inj]
    · simpa using Ne.symm heq

/-- Making a directory above a target. -/
theorem make (h : Underway s origin waiting moves made d) (ho : origin.Rooted)
    (hs : s.IsFree origin) (hnext : Next s moves target names) (hps : ps <+: names)
    (hproper : ps ≠ names) (hn : d.Names p (s.spot ++ ps) false) (hne : ps ≠ [])
    (hl : d.get? (s.spot ++ ps) = none) :
    Underway s origin waiting moves
      (⟨p, s.spot ++ ps, d.inheritedMode (s.spot ++ ps).dropLast⟩ :: made)
      (d.put (s.spot ++ ps) (.directory (d.inheritedMode (s.spot ++ ps).dropLast))) := by
  set mode := d.inheritedMode (s.spot ++ ps).dropLast with hmode
  have hget := Disk.get?_put_eq (d := d) hn.ne_nil (.directory mode)
  have hkeeps : d.KeepsWays (d.put (s.spot ++ ps) (.directory mode)) :=
    .of_update rfl hget (Disk.not_leadsOn_of_absent hl)
  obtain ⟨parent, n, hspot, hparent⟩ := hn.inDirectory
  have hplaced : ∀ m ∈ moves, m.spot ≠ s.spot ++ ps := by
    intro m hm heq
    simp [← heq, (h.placed m hm).2.1] at hl
  refine ⟨h.toAccounted.make (g := ⟨p, s.spot ++ ps, mode⟩) hl (fun hmem => ?_)
    (hs.absent ho hnext.mem hnext.aims hps hne) rfl hget, ?_, h.keepsWays.trans hkeeps, ?_, ?_, ?_⟩
  · obtain ⟨m, hm, hmem⟩ := List.mem_flatMap.mp hmem
    rcases Move.mem_touched_iff.mp hmem with heq | ⟨q, hq⟩
    · exact hplaced m hm heq.symm
    · simp [(h.placed m hm).1] at hq
  · rw [hspot]
    exact h.rooted.put hparent (Disk.not_hasDirectory_of_absent (hspot ▸ hl)) _
  · intro m hm
    obtain ⟨hbackup, hholds, haims⟩ := h.placed m hm
    exact ⟨hbackup, by rw [hget, Function.update_of_ne (hplaced m hm), hholds], haims⟩
  · intro g hg
    rcases List.mem_cons.mp hg with rfl | hg
    · exact ⟨target, hnext.mem, names, ps, hnext.aims, hps, hproper, rfl⟩
    · exact h.above g hg
  · intro g hg
    rcases List.mem_cons.mp hg with rfl | hg
    · have hdrop : (s.spot ++ ps).dropLast = parent := by rw [hspot, List.dropLast_concat]
      exact hmode.trans (hkeeps.keeps.inheritedMode_eq (hdrop ▸ hparent)).symm
    · exact h.inherited_of_keeps h.rooted h.inherited hkeeps.keeps hg

/-- Nothing is reached on the way to a target where a directory is missing. -/
theorem reaches_eq_false (h : Underway s origin waiting moves made d) (ho : origin.Rooted)
    (hs : s.IsFree origin) (hnext : Next s moves target names)
    (hq : q.components = s.base.components ++ ps.map .name) (hps : ps <+: names)
    (hl : d.get? (s.spot ++ ps) = none) : d.reaches q = false := by
  have hopens := hs.opens.keepsWays h.keepsWays
  rw [Disk.reaches, Disk.status]
  cases hlocate : d.locate q true with
  | error f => rfl
  | ok k =>
    have hk : k = s.spot ++ ps := by
      refine Disk.Leads.below ⟨_, hopens.follows⟩ (.of_locate hlocate) hq
        (fun n hn => (hnext.aims.legal n (hps.subset hn)).toIsOrdinary) fun qs t hqs => ?_
      by_cases hne : qs = []
      · obtain ⟨m, hm⟩ := hopens.directory
        simp [hne, hm]
      · rcases h.directory_or_absent ho hs hnext (hqs.trans hps) hne with ⟨m, hm⟩ | hnone
        · simp [hm]
        · simp [hnone]
    simp [hk, hl, Except.toOption]

/-- Making one directory on the way to a target, the one above it being there. -/
theorem makeNoted_ok (h : Underway s origin waiting moves made d) (ho : origin.Rooted)
    (hs : s.IsFree origin) (hnext : Next s moves target names)
    (hp : p.components = s.base.components ++ ps.map .name)
    (hdir : d.HasDirectory (s.spot ++ ps)) (hps : ps ++ [n] <+: names)
    (hproper : ps ++ [n] ≠ names) (hq : q.components = s.base.components ++ (ps ++ [n]).map .name)
    (hlast : (Path.pieces q.text).getLast? = some n) (htext : Site.CanName q)
    (hl : d.get? (s.spot ++ (ps ++ [n])) = none) :
    ∃ g d', outcome (makeNoted q) ⟨d, journalOf moves made⟩ =
        (.ok (), ⟨d', journalOf moves (g :: made)⟩) ∧
      Underway s origin waiting moves (g :: made) d' ∧ d'.HasDirectory (s.spot ++ (ps ++ [n])) ∧
      ∀ k ≠ s.spot ++ (ps ++ [n]), d'.get? k = d.get? k := by
  have hlegal : ∀ m ∈ ps ++ [n], Disk.IsFileName m := fun m hm =>
    hnext.aims.legal m (hps.subset hm)
  have hnonempty : q.text ≠ "" := by
    rw [ne_eq, ← Path.components_eq_nil_iff, hq]
    simp
  have hnames : d.Names q (s.spot ++ (ps ++ [n])) false := by
    have hopens := h.opens_below hs hp (fun m hm => hlegal m (List.mem_append_left _ hm)) hdir
    rw [← List.append_assoc]
    refine hopens.names_of ?_ (hlegal n (by simp)) hlast (htext hnonempty)
    rw [hq, hp]
    simp
  have hnew := Disk.newEntry_eq_ok_iff.mpr ⟨⟨false, hnames⟩, hl⟩
  have hget := fun x => Disk.get?_put_eq (d := d) hnames.ne_nil x
  refine ⟨_, _, ?_, h.make ho hs hnext hps hproper hnames (by simp) hl, ?_, fun k hk => ?_⟩
  · rw [outcome_makeNoted, hnew]
    rfl
  · exact ⟨d.inheritedMode (s.spot ++ (ps ++ [n])).dropLast, by rw [hget, Function.update_self]⟩
  · rw [hget, Function.update_of_ne hk]

/-- Making what is missing above a target: nothing is in the way. -/
theorem makeMissing_ok (h : Underway s origin waiting moves made d) (ho : origin.Rooted)
    (hs : s.IsFree origin) (hnext : Next s moves target names)
    (hq : q.components = s.base.components ++ ps.map .name) (hps : ps <+: names)
    (hproper : ps ≠ names) (htext : Site.CanName q)
    (hlast : ∀ n ∈ ps.getLast?, (Path.pieces q.text).getLast? = some n) :
    ∃ new d', outcome ((missingDirectories d q).forM makeNoted) ⟨d, journalOf moves made⟩ =
        (.ok (), ⟨d', journalOf moves (new ++ made)⟩) ∧
      Underway s origin waiting moves (new ++ made) d' ∧ d'.HasDirectory (s.spot ++ ps) ∧
      ∀ k, ¬ k <+: s.spot ++ ps → d'.get? k = d.get? k := by
  -- the parents come first, so the induction is on the names from their end
  induction ps using List.reverseRecOn generalizing q with
  | nil =>
    have hopens : d.Opens q (s.spot ++ []) := by
      rw [List.append_nil]
      exact (hs.opens.keepsWays h.keepsWays).of_components (by simpa using hq)
    rw [Site.missingDirectories_of_opens hopens htext]
    exact ⟨[], d, rfl, h, hopens.directory, fun _ _ => rfl⟩
  | append_singleton ps n ih =>
    rcases h.directory_or_absent ho hs hnext hps (by simp) with hdir | hnone
    · have hopens := h.opens_below hs hq (fun m hm => hnext.aims.legal m (hps.subset hm)) hdir
      rw [Site.missingDirectories_of_opens hopens htext]
      exact ⟨[], d, rfl, h, hdir, fun _ _ => rfl⟩
    obtain ⟨r, hr, hcomponents⟩ := Path.exists_parent hq
    have hne : ps ≠ names := by
      rintro rfl
      exact absurd hps.length_le (by simp)
    obtain ⟨new, d₁, hout, h₁, hdir₁, hsame₁⟩ :=
      ih hcomponents ((List.prefix_append ps [n]).trans hps) hne (htext.parent hr) (Path.last_of_parent hr hcomponents)
    have hnone₁ : d₁.get? (s.spot ++ (ps ++ [n])) = none := by
      rw [hsame₁, hnone]
      rw [List.prefix_append_right_inj]
      exact fun hlong => absurd hlong.length_le (by simp)
    obtain ⟨g, d₂, hout₂, h₂, hdir₂, hsame₂⟩ := h₁.makeNoted_ok ho hs hnext hcomponents hdir₁ hps
      hproper hq (hlast n (by simp)) htext hnone₁
    refine ⟨g :: new, d₂, ?_, h₂, hdir₂, fun k hk => ?_⟩
    · have hreaches := h.reaches_eq_false ho hs hnext hq hps hnone
      rw [Site.missingDirectories_of_missing hr (by simp [hq]) hreaches, outcome_forM_append,
        outcome_bind, hout]
      dsimp only
      rw [outcome_forM_cons, outcome_bind, hout₂]
      rfl
    · rw [hsame₂ k (by rintro rfl; exact hk List.prefix_rfl), hsame₁]
      intro hk'
      refine hk (hk'.trans ?_)
      rw [List.prefix_append_right_inj]
      exact List.prefix_append ps [n]

/-- A target is named once the directory above it is there. -/
theorem names_target (h : Underway s origin waiting moves made d) (hs : s.IsFree origin)
    (hnext : Next s moves target (ps ++ [n])) (hdir : d.HasDirectory (s.spot ++ ps)) :
    d.Names target (s.spot ++ (ps ++ [n])) false := by
  have haims := hnext.aims
  obtain ⟨r, -, hcomponents⟩ := Path.exists_parent haims.components
  have hopens := h.opens_below hs hcomponents
    (fun m hm => haims.legal m (List.mem_append_left _ hm)) hdir
  rw [← List.append_assoc]
  refine hopens.names_of ?_ (haims.legal n (by simp)) (by simpa using haims.last) haims.text
  rw [haims.components, hcomponents]
  simp

/-- Moving a staged file to its target, which is free. -/
theorem settle_ok (h : Underway s origin (w :: rest) moves made d) (ho : origin.Rooted)
    (hs : s.IsFree origin) (hnext : Next s moves w.pending.target (ps ++ [n]))
    (hdir : d.HasDirectory (s.spot ++ ps)) :
    ∃ m d', outcome (settle w.pending) ⟨d, journalOf moves made⟩ =
        (.ok (), ⟨d', journalOf (m :: moves) made⟩) ∧
      Underway s origin rest (m :: moves) made d' ∧ m.output = w.output := by
  have hnames := h.names_target hs hnext hdir
  have hnone := h.target_absent ho hs hnext
  have hplain := hnext.aims.not_isScratchSpot List.prefix_rfl hnext.aims.ne_nil
  obtain ⟨hwaits, htouched⟩ := h.waits w List.mem_cons_self
  have hne : w.spot ≠ s.spot ++ (ps ++ [n]) := fun heq => hplain (heq ▸ hwaits.scratch)
  set m : Move := ⟨w.pending.target, s.spot ++ (ps ++ [n]), w.bytes, none⟩ with hm
  set d' := (d.erase w.spot).put (s.spot ++ (ps ++ [n])) (scratchEntry w.bytes) with hd'
  have hsettled : Settled d w m d' := settled_free h.rooted hwaits hnames hplain hnone
  have hkeeps := hsettled.keepsWays
  refine ⟨m, d', ?_, ⟨?_, hsettled.rooted, h.keepsWays.trans hkeeps, ?_, h.above, ?_⟩, rfl⟩
  · have hmovable : d.movable w.pending.scratch w.pending.target =
        .ok (w.spot, s.spot ++ (ps ++ [n]), scratchEntry w.bytes) :=
      Disk.movable_of_entry (hwaits.named.of_keepsWays h.keepsWays) hnames hwaits.holds rfl
        (Disk.not_hasDirectory_of_absent hnone)
    rw [outcome_settle, outcome_takeBackup_of_noFile (Disk.isFile_of_absent hnames hnone)]
    dsimp only
    rw [hmovable]
    dsimp only
    rw [if_neg hne]
    rfl
  · exact h.toAccounted.place rfl hkeeps.keeps.entries hsettled.undo fun w' hw' =>
      hsettled.spot_not_mem (h.waits w' (List.mem_cons_of_mem w hw')).1
  · intro m' hm'
    rcases List.mem_cons.mp hm' with rfl | hm'
    · exact ⟨rfl, hsettled.content, ps ++ [n], hnext.aims, rfl⟩
    · obtain ⟨hbackup, hholds, haims⟩ := h.placed m' hm'
      refine ⟨hbackup, ?_, haims⟩
      have hspot : m'.spot ≠ s.spot ++ (ps ++ [n]) := by
        intro heq
        simp [heq, hnone] at hholds
      have hwaiting : m'.spot ≠ w.spot := by
        intro heq
        exact htouched (List.mem_flatMap.mpr ⟨m', hm', heq ▸ m'.spot_mem_touched⟩)
      rw [hd', Disk.get?_put_eq hnames.ne_nil, Function.update_of_ne hspot,
        Disk.get?_erase_eq (Disk.ne_nil_of_hasFile hwaits.hasFile), Function.update_of_ne hwaiting,
        hholds]
  · exact fun g hg => h.inherited_of_keeps h.rooted h.inherited hkeeps.keeps hg

/-- Placing a staged file: its directories are made and it is moved to its target. -/
theorem place_ok (h : Underway s origin (w :: rest) moves made d) (ho : origin.Rooted)
    (hs : s.IsFree origin) (hnext : Next s moves w.pending.target names) :
    ∃ m new d', outcome (place w.pending) ⟨d, journalOf moves made⟩ =
        (.ok (), ⟨d', journalOf (m :: moves) (new ++ made)⟩) ∧
      Underway s origin rest (m :: moves) (new ++ made) d' ∧ m.output = w.output := by
  obtain ⟨ps, n, rfl⟩ := (List.eq_nil_or_concat' names).resolve_left hnext.aims.ne_nil
  obtain ⟨r, hr, hcomponents⟩ := Path.exists_parent hnext.aims.components
  have htext : Site.CanName w.pending.target := fun _ => hnext.aims.text
  obtain ⟨new, d₁, hout, h₁, hdir, -⟩ := h.makeMissing_ok ho hs hnext hcomponents
    (List.prefix_append ps [n]) (by simp) (htext.parent hr) (Path.last_of_parent hr hcomponents)
  obtain ⟨m, d₂, hout₂, h₂, houtput⟩ := h₁.settle_ok ho hs hnext hdir
  refine ⟨m, new, d₂, ?_, h₂, houtput⟩
  rw [place_eq, makeAbove, hr]
  dsimp only
  rw [outcome_bind, outcome_makeMissing, hout]
  exact hout₂

/-- Placing all staged files. -/
theorem placeAll_ok (h : Underway s origin waiting moves made d) (ho : origin.Rooted)
    (hs : s.IsFree origin)
    (horder : moves.reverse.map Move.target ++ waiting.map (·.pending.target) = s.targets) :
    ∃ moves' made' d', outcome (placeAll (waiting.map Waiting.pending))
        ⟨d, journalOf moves made⟩ = (.ok (), ⟨d', journalOf moves' made'⟩) ∧
      Underway s origin [] moves' made' d' ∧
      moves'.reverse.map Move.output = moves.reverse.map Move.output ++ waiting.map Waiting.output := by
  induction waiting generalizing moves made d with
  | nil => exact ⟨moves, made, d, rfl, h, by simp⟩
  | cons w rest ih =>
    obtain ⟨names, haims, -⟩ := hs.aims w.pending.target (by rw [← horder]; simp)
    have hnext : Next s moves w.pending.target names := by
      refine ⟨by rw [← horder]; simp, haims, fun m hm => ?_⟩
      have hapart := hs.apart
      rw [← horder, List.pairwise_append] at hapart
      exact hapart.2.2 m.target (List.mem_map_of_mem (List.mem_reverse.mpr hm)) _ (by simp)
    obtain ⟨m, new, d₁, hout, h₁, houtput⟩ := h.place_ok ho hs hnext
    have htarget : m.target = w.pending.target := congrArg Prod.fst houtput
    obtain ⟨moves', made', d₂, hout₂, h₂, houtputs⟩ :=
      ih h₁ (by rw [← horder]; simp [htarget])
    refine ⟨moves', made', d₂, ?_, h₂, ?_⟩
    · rw [List.map_cons, outcome_placeAll_cons, hout]
      exact hout₂
    · rw [houtputs]
      simp [houtput]

theorem backupsOf_eq_nil (h : Underway s origin waiting moves made d) : backupsOf moves = [] :=
  List.filterMap_eq_nil_iff.mpr fun m hm => (h.placed m hm).1

/-- Committing all staged files. -/
theorem commit_ok (h : Underway s origin waiting [] [] d) (ho : origin.Rooted)
    (hs : s.IsFree origin) (horder : waiting.map (·.pending.target) = s.targets) :
    ∃ moves made d', outcome (Transaction.commit ⟨waiting.map Waiting.pending⟩) d =
        (.ok s.targets, d') ∧ Underway s origin [] moves made d' ∧
      moves.reverse.map Move.output = waiting.map Waiting.output := by
  obtain ⟨moves, made, d', hout, h', houtputs⟩ := h.placeAll_ok ho hs (by simpa using horder)
  refine ⟨moves, made, d', ?_, h', by simpa using houtputs⟩
  change outcome (placeAll (waiting.map Waiting.pending)) ⟨d, {}⟩ = _ at hout
  rw [outcome_commit, hout]
  dsimp only [journalOf]
  rw [filterMap_backup, h'.backupsOf_eq_nil, ← horder, List.map_map]
  rfl

/-- What a finished commit at a free site wrote. -/
theorem wrote (h : Underway s origin [] moves made d)
    (hall : ∀ t ∈ s.targets, ∃ m ∈ moves, m.target = t) : Wrote origin (writtenBy moves) d where
  workingDirectory := h.workingDirectory
  contents l b hl := by
    rw [writtenBy, ← List.map_reverse, List.reverse_reverse] at hl
    obtain ⟨m, hm, rfl⟩ := find?_of_lookup hl
    have hspot : m.spot = l := by simpa using List.find?_some hm
    rw [← hspot, (h.placed m (List.mem_of_find?_eq_some hm)).2.1]
  parents := by
    rintro l hfree ⟨x, hx, habove, hne⟩
    obtain ⟨m, hm, rfl⟩ := mem_writtenBy.mp hx
    have hholds := (h.placed m hm).2.1
    obtain ⟨i, hi⟩ := h.rooted.hasDirectory_of_prefix habove hne.symm (by simp [hholds])
    have hfiles : ∀ k ∈ touchedBy moves, ¬ d.HasDirectory k := by
      intro k hk
      obtain ⟨m', hm', hk⟩ := List.mem_flatMap.mp hk
      obtain ⟨hbackup, hholds', -⟩ := h.placed m' hm'
      obtain rfl : k = m'.spot := by simpa [Move.touched, hbackup] using hk
      exact Disk.not_hasDirectory_of_hasFile ⟨_, _, hholds'⟩
    rcases h.old_or_made hfiles hi with hold | ⟨g, hg, rfl, rfl⟩
    · simp [hfree] at hold
    · rw [hi, ← h.inherited g hg]
  others := by
    intro l hl habove
    refine h.get?_eq (fun hmade => ?_) (fun m hm heq => hl ?_) (by simp)
    · obtain ⟨g, hg, rfl⟩ := List.mem_map.mp hmade
      obtain ⟨t, ht, names, ps, haims, hps, -, hspot⟩ := h.above g hg
      obtain ⟨m, hm, rfl⟩ := hall t ht
      obtain ⟨-, -, names', haims', hplace⟩ := h.placed m hm
      refine habove (h.fresh g hg).2 _ (mem_writtenBy.mpr ⟨m, hm, rfl⟩) ?_
      rw [hspot, hplace, haims'.unique haims, List.prefix_append_right_inj]
      exact hps
    · exact List.mem_map.mpr ⟨_, mem_writtenBy.mpr ⟨m, hm, rfl⟩, heq.symm⟩

end Underway

/-- Writing files to a free site succeeds. Each target holds its content, the directories above it
are made, and all else is as before. -/
theorem writeAll_fresh (ho : origin.IsProper) (hs : s.IsFree origin)
    (htargets : files.map Prod.fst = s.targets)
    (hfits : ∀ f ∈ files, Site.ScratchFits origin f.1 (origin.entries.length + files.length)) :
    ∃ written e, outcome (writeAll files) origin = (.ok s.targets, e) ∧ Wrote origin written e ∧
      e.Rooted ∧ origin.KeepsWays e ∧
      List.Forall₂ (fun f x => ∃ names, s.Aims f.1 names ∧ x = (s.spot ++ names, f.2)) files
        written := by
  have hstart : Recoverable origin [] [] [] origin := .start ho.rooted
  obtain ⟨t, d, hstage⟩ := Site.stageAll_ok ho hs hstart
    (fun f hf => htargets ▸ List.mem_map_of_mem hf) hfits le_rfl
  obtain ⟨waiting, rfl, hstaged, houtputs⟩ := stageAll_recoverable hstart hstage
  have hfiles : waiting.map Waiting.output = files := by simpa using houtputs
  have horder : waiting.map (·.pending.target) = s.targets := by
    rw [← htargets, ← hfiles, List.map_map]
    rfl
  obtain ⟨moves, made, e, hcommit, h, hmoves⟩ :=
    (Underway.of_staged hstaged).commit_ok ho.rooted hs horder
  rw [hfiles] at hmoves
  refine ⟨writtenBy moves, e, ?_, h.wrote fun t ht => ?_, h.rooted, h.keepsWays, ?_⟩
  · change outcome (Transaction.stageAll {} files) origin = _ at hstage
    rw [writeAll, outcome_bind, hstage]
    exact hcommit
  · rw [← htargets, ← hmoves] at ht
    obtain ⟨x, hx, rfl⟩ := List.mem_map.mp ht
    obtain ⟨m, hm, rfl⟩ := List.mem_map.mp hx
    exact ⟨m, List.mem_reverse.mp hm, rfl⟩
  · rw [← hmoves, writtenBy, List.forall₂_map_left_iff, List.forall₂_map_right_iff,
      List.forall₂_same]
    intro m hm
    obtain ⟨-, -, names, haims, hspot⟩ := h.placed m (List.mem_reverse.mp hm)
    exact ⟨names, haims, by rw [hspot]; rfl⟩

end ProtoForge.Output
