import ProtoForge.Proofs.Output.Rollback

/-!
# Taking a commit back

What ties the disk in the middle of a commit to the disk before staging. On a
disk with links what a path names depends on the links that it crosses. A
commit moves files and links to files only, so the ways to directories stay;
and a move is undone on the disk that it left, with nothing more than further
directories on it. So every path of the journal still names what it named, and
nothing new is left once a commit that fails was taken back.
-/
namespace ProtoForge.Output

open Files

/-- What a move left where: a file at its spot, and what is no directory at its backup. -/
structure Move.Holds (m : Move) (v : View) : Prop where
  spot : v.HasFile m.spot
  backup : ∀ q b, m.backup = some (q, b) → b ≠ m.spot ∧ ∃ x, v b = some x ∧ x.isDirectory = false

/-- Moves that can be undone in order: the paths of each name its locations, that of its backup
also once it is undone. -/
def Reversible : List Move → Disk → Prop
  | [], _ => True
  | m :: ms, d => m.NamedOn d ∧ m.Holds d.get? ∧
      ∀ e : Disk, e.workingDirectory = d.workingDirectory → e.get? = m.undo d.get? →
        (∀ q b, m.backup = some (q, b) → e.Names q b false) ∧ Reversible ms e

/-- All that lies on one disk lies on another, seen from the same place. -/
structure Within (d e : Disk) : Prop where
  workingDirectory : e.workingDirectory = d.workingDirectory
  entries : ∀ l x, d.get? l = some x → e.get? l = some x

/-- Directories that can be removed in order from any disk that holds the old tree: each can be
reached through those before it, none of which lies inside it. -/
def Unmakable (origin : Disk) : List Made → Prop
  | [] => True
  | g :: older =>
      (∀ e, Within origin e → (∀ k ∈ older, k.StandsOn e) → ∃ slash, e.Names g.path g.spot slash) ∧
        (∀ k ∈ older, ¬ g.spot <+: k.spot) ∧ Unmakable origin older

/-- How far a commit is, with the files that wait and the moves and directories made so far. No
move touched a way to a directory of the old tree. -/
structure Recoverable (origin : Disk) (waiting : List Waiting) (moves : List Move)
    (made : List Made) (d : Disk) : Prop extends Accounted origin waiting moves made d where
  old : origin.Rooted
  rooted : d.Rooted
  reversible : Reversible moves d
  spared : ∀ l ∈ touchedBy moves, ¬ origin.LeadsOn l
  unmakable : Unmakable origin made

/-- A file lies somewhere, or a link with the name of a scratch file. -/
def Taken (d : Disk) (l : Location) : Prop :=
  View.HasFile d.get? l ∨ IsScratchSpot l ∧ ∃ t, d.get? l = some (.link t)

/-- No step of a path is a name that scratch files take. -/
def Unmentioned (p : Path) : Prop :=
  ∀ s ∈ Path.moving p.split.2, ¬ IsScratchName scratchStem s

/-- No link mentions a name that scratch files take. -/
def LinksUnmentioned (d : Disk) : Prop := ∀ l t, d.get? l = some (.link t) → Unmentioned ⟨t⟩

variable {origin d e : Disk} {waiting rest : List Waiting} {moves : List Move} {made : List Made}
  {w : Waiting} {m : Move} {g : Made} {p : Path} {k l : Location} {x : Option Entry} {b : Bytes}

theorem Taken.of_hasFile (h : View.HasFile d.get? l) : Taken d l := Or.inl h

theorem Taken.ne_none (h : Taken d l) : d.get? l ≠ none := by
  rcases h with ⟨c, n, hfile⟩ | ⟨-, t, ht⟩
  · simp [hfile]
  · simp [ht]

theorem Taken.not_hasDirectory (h : Taken d l) : ¬ d.HasDirectory l := by
  rcases h with hfile | ⟨-, t, ht⟩
  · exact Disk.not_hasDirectory_of_hasFile hfile
  · rintro ⟨n, hn⟩
    simp [ht] at hn

theorem Taken.of_eq (h : Taken d l) (he : e.get? l = d.get? l) : Taken e l := by
  rcases h with ⟨c, n, hfile⟩ | ⟨hscratch, t, ht⟩
  · exact Or.inl ⟨c, n, he.trans hfile⟩
  · exact Or.inr ⟨hscratch, t, he.trans ht⟩

namespace Move

/-- The directories of a disk stay when a move is undone. -/
theorem Holds.directories (h : m.Holds d.get?) {v : View} (hv : v = m.undo d.get?) {n : ℕ}
    (hl : d.get? l = some (.directory n)) : v l = some (.directory n) := by
  have htouched : l ∉ m.touched := by
    intro hmem
    rcases mem_touched_iff.mp hmem with rfl | ⟨q, hq⟩
    · obtain ⟨c, i, hfile⟩ := h.spot
      simp [hl] at hfile
    · obtain ⟨-, x, hx, hdir⟩ := h.backup q l hq
      obtain rfl : Entry.directory n = x := by simpa [hl] using hx
      simp [Entry.isDirectory] at hdir
  rw [hv, undo_of_not_mem htouched, hl]

theorem Holds.update {v : View} (h : m.Holds v) (hg : l ∉ m.touched) (x : Option Entry) :
    m.Holds (Function.update v l x) := by
  have hspot : m.spot ≠ l := fun heq => hg (heq ▸ m.spot_mem_touched)
  constructor
  · obtain ⟨c, n, hfile⟩ := h.spot
    exact ⟨c, n, by rw [Function.update_of_ne hspot, hfile]⟩
  · intro q b hb
    have hbl : b ≠ l := fun heq => hg (heq ▸ backup_mem_touched hb)
    rw [Function.update_of_ne hbl]
    exact h.backup q b hb

theorem NamedOn.of_keepsWays (h : m.NamedOn d) (hkeeps : d.KeepsWays e) : m.NamedOn e :=
  ⟨h.1.of_keepsWays hkeeps, fun q b hb => (h.2 q b hb).of_keepsWays hkeeps⟩

end Move

/-- A disk with one entry put back or taken away. -/
theorem exists_update (e : Disk) (hl : l ≠ []) (x : Option Entry) :
    ∃ d : Disk, d.workingDirectory = e.workingDirectory ∧ d.get? = Function.update e.get? l x := by
  cases x with
  | none => exact ⟨e.erase l, rfl, Disk.get?_erase_eq hl⟩
  | some y => exact ⟨e.put l y, rfl, Disk.get?_put_eq hl y⟩

/-- Moves can still be undone after a change elsewhere, where nothing or a file was. -/
theorem Reversible.update (h : Reversible moves d) (hl : l ≠ []) (hg : l ∉ touchedBy moves)
    (hold : d.get? l = none ∨ View.HasFile d.get? l)
    (hw : e.workingDirectory = d.workingDirectory) (hget : e.get? = Function.update d.get? l x) :
    Reversible moves e := by
  induction moves generalizing d e with
  | nil => trivial
  | cons m moves ih =>
    obtain ⟨hnamed, hholds, hback⟩ := h
    rw [mem_touchedBy_cons, not_or] at hg
    have hkeeps : ∀ d e : Disk, (d.get? l = none ∨ View.HasFile d.get? l) →
        e.workingDirectory = d.workingDirectory → e.get? = Function.update d.get? l x →
        d.KeepsWays e := by
      intro d e hold hw hget
      exact .of_update hw hget
        (hold.elim Disk.not_leadsOn_of_absent Disk.not_leadsOn_of_hasFile)
    refine ⟨hnamed.of_keepsWays (hkeeps d e hold hw hget), hget ▸ hholds.update hg.1 x, ?_⟩
    intro e' hw' hget'
    rw [hget, Move.undo_update hg.1] at hget'
    -- the disk on which the move is undone without the change
    obtain ⟨d', hd', hv⟩ := exists_update e' hl (d.get? l)
    have hundo : d'.get? = m.undo d.get? := by
      rw [hv, hget', Function.update_idem, ← Move.undo_of_not_mem hg.1 d.get?,
        Function.update_eq_self]
    obtain ⟨hbackups, hrest⟩ := hback d' (by rw [hd', hw', hw]) hundo
    have hold' : d'.get? l = none ∨ View.HasFile d'.get? l := by
      have hsame : d'.get? l = d.get? l := by rw [hv, Function.update_self]
      rw [View.HasFile, hsame]
      exact hold
    have hget'' : e'.get? = Function.update d'.get? l x := by rw [hget', hundo]
    exact ⟨fun q b hb => (hbackups q b hb).of_keepsWays (hkeeps d' e' hold' hd'.symm hget''),
      ih hrest hg.2 hold' hd'.symm hget''⟩

theorem Reversible.of_sameTree (h : Reversible moves d) (he : d.SameTree e) :
    Reversible moves e := by
  cases moves with
  | nil => trivial
  | cons m moves =>
    obtain ⟨hnamed, hholds, hback⟩ := h
    refine ⟨hnamed.of_keepsWays he.keepsWays, he.entries ▸ hholds, fun e' hw' hget' => ?_⟩
    exact hback e' (hw'.trans he.workingDirectory) (by rw [hget', he.entries])

namespace Recoverable

theorem start (ho : origin.Rooted) : Recoverable origin [] [] [] origin where
  toAccounted := .start origin
  old := ho
  rooted := ho
  reversible := trivial
  spared := by simp
  unmakable := trivial

theorem of_sameTree (h : Recoverable origin waiting moves made d) (he : d.SameTree e) :
    Recoverable origin waiting moves made e where
  toAccounted := h.toAccounted.of_sameTree he
  old := h.old
  rooted := he.rooted h.rooted
  reversible := h.reversible.of_sameTree he
  spared := h.spared
  unmakable := h.unmakable

/-- The ways of the old tree are there all the time. -/
theorem keepsWays (h : Recoverable origin waiting moves made d) : origin.KeepsWays d := by
  refine ⟨h.workingDirectory, fun l hl => ?_⟩
  have htouched : l ∉ touchedBy moves := fun ht => h.spared l ht hl
  have hmade : l ∉ made.map Made.spot := by
    intro hmem
    obtain ⟨g, hg, rfl⟩ := List.mem_map.mp hmem
    exact Disk.not_leadsOn_of_absent (h.fresh g hg).2 hl
  have hwaiting : l ∉ waiting.map Waiting.spot := by
    intro hmem
    obtain ⟨w, hw, rfl⟩ := List.mem_map.mp hmem
    exact Disk.not_leadsOn_of_absent (h.waits w hw).1.free hl
  rw [← h.undone l hmade hwaiting, undoAll_of_not_mem htouched]

/-- Once all moves are undone, the old tree is there. -/
theorem within (h : Recoverable origin waiting [] made d) : Within origin d := by
  refine ⟨h.workingDirectory, fun l x hx => ?_⟩
  rw [← hx]
  refine h.undone l ?_ ?_
  · intro hmem
    obtain ⟨g, hg, rfl⟩ := List.mem_map.mp hmem
    simp [(h.fresh g hg).2] at hx
  · intro hmem
    obtain ⟨w, hw, rfl⟩ := List.mem_map.mp hmem
    simp [(h.waits w hw).1.free] at hx

/-- Staging a file adds a scratch file that waits. -/
theorem stage (h : Recoverable origin waiting [] [] d) (hn : d.Names p l false)
    (hl : d.get? l = none) (hscratch : IsScratchSpot l) (target : Path) (b : Bytes) :
    Recoverable origin (waiting ++ [⟨⟨target, p⟩, l, b⟩]) [] [] (d.put l (scratchEntry b)) := by
  have hget := Disk.get?_put_eq (d := d) hn.ne_nil (scratchEntry b)
  have hback : d.KeepsWays origin := by
    refine ⟨h.workingDirectory.symm, fun k hk => (h.undone k (by simp) ?_).symm⟩
    intro hmem
    obtain ⟨w, hw, rfl⟩ := List.mem_map.mp hmem
    exact Disk.not_leadsOn_of_hasFile (h.waits w hw).1.hasFile hk
  have hfree := (h.free_of_absent (by simp) hl).2
  obtain ⟨parent, s, rfl, hparent⟩ := hn.inDirectory
  refine ⟨h.toAccounted.stage (w := ⟨⟨target, p⟩, parent ++ [s], b⟩) hl ?_ rfl hget, h.old, ?_,
    trivial, by simp, trivial⟩
  · exact ⟨hn.of_keepsWays hback, hfree, by rw [hget, Function.update_self], hscratch⟩
  · exact h.rooted.put hparent (Disk.not_hasDirectory_of_absent hl) _

/-- The directories of the disk are wherever the old tree is and what was made. -/
theorem directories_of_within (h : Recoverable origin waiting moves made d)
    (htaken : ∀ l ∈ touchedBy moves, Taken d l) (he : Within origin e)
    (hmade : ∀ g ∈ made, g.StandsOn e) (k : Location) (hk : d.HasDirectory k) :
    e.get? k = d.get? k := by
  obtain ⟨n, hn⟩ := hk
  rw [hn]
  rcases h.old_or_made (fun l hl => (htaken l hl).not_hasDirectory) hn with
    hold | ⟨g, hg, rfl, rfl⟩
  · exact he.entries k _ hold
  · exact hmade g hg

/-- A path through unmentioned names leads through the old tree and the directories that were
made, and so it does wherever these are. -/
theorem names_of_within (h : Recoverable origin waiting moves made d)
    (htaken : ∀ l ∈ touchedBy moves, Taken d l) (hlinks : LinksUnmentioned origin)
    (hp : Unmentioned p) {slash : Bool} (hn : d.Names p l slash) (he : Within origin e)
    (hmade : ∀ g ∈ made, g.StandsOn e) : e.Names p l slash := by
  refine hn.carry (K := fun s => ¬ IsScratchName scratchStem s)
    (he.workingDirectory.trans h.workingDirectory.symm) hp
    (h.directories_of_within htaken he hmade) ?_
  -- a link that is crossed was there before the commit, as its name is no scratch file's
  intro k s t hs _ ht
  have htouched : k ++ [s] ∉ touchedBy moves := by
    intro hmem
    rcases htaken _ hmem with ⟨c, n, hfile⟩ | ⟨⟨parent, s', hs', heq⟩, -⟩
    · simp [ht] at hfile
    · obtain ⟨-, hss⟩ := List.append_inj' heq rfl
      obtain rfl : s = s' := by simpa using hss
      exact hs hs'
  have hold : origin.get? (k ++ [s]) = some (.link t) := by
    rw [← h.undone _ ?_ ?_, undoAll_of_not_mem htouched, ht]
    · intro hmem
      obtain ⟨g, hg, heq⟩ := List.mem_map.mp hmem
      have hstands : d.get? g.spot = some (.directory g.mode) := (h.fresh g hg).1
      rw [heq, ht] at hstands
      simp at hstands
    · intro hmem
      obtain ⟨w, hw, heq⟩ := List.mem_map.mp hmem
      have hholds := (h.waits w hw).1.holds
      rw [heq, ht] at hholds
      simp [scratchEntry] at hholds
  exact ⟨he.entries _ _ hold, hlinks _ _ hold⟩

/-- On a disk without links every path leads through the old tree and the directories that were
made. -/
theorem names_of_linkFree (h : Recoverable origin waiting moves made d) (hd : d.LinkFree)
    (htaken : ∀ l ∈ touchedBy moves, Taken d l) {slash : Bool} (hn : d.Names p l slash)
    (he : Within origin e) (hmade : ∀ g ∈ made, g.StandsOn e) : e.Names p l slash :=
  hn.carry (K := fun _ => True) (he.workingDirectory.trans h.workingDirectory.symm)
    (fun _ _ => trivial) (h.directories_of_within htaken he hmade)
    fun k s t _ _ ht => absurd ht (hd (k ++ [s]) t)

/-- Making a directory adds it to those that are to be removed, as long as its path names it
wherever the old tree is and what was made before. -/
theorem make (h : Recoverable origin waiting moves made d)
    (htaken : ∀ l ∈ touchedBy moves, Taken d l) {slash : Bool} (hn : d.Names p l slash)
    (hreach : ∀ e, Within origin e → (∀ g ∈ made, g.StandsOn e) → e.Names p l slash)
    (hl : d.get? l = none) (mode : ℕ) :
    Recoverable origin waiting moves (⟨p, l, mode⟩ :: made) (d.put l (.directory mode)) := by
  have hget := Disk.get?_put_eq (d := d) hn.ne_nil (.directory mode)
  obtain ⟨htouched, hfree⟩ := h.free_of_absent (fun l hl => (htaken l hl).ne_none) hl
  refine ⟨h.toAccounted.make (g := ⟨p, l, mode⟩) hl htouched hfree rfl hget, h.old, ?_, ?_,
    h.spared, ?_, ?_, h.unmakable⟩
  · obtain ⟨parent, s, rfl, hparent⟩ := hn.inDirectory
    exact h.rooted.put hparent (Disk.not_hasDirectory_of_absent hl) _
  · exact h.reversible.update hn.ne_nil htouched (Or.inl hl) rfl hget
  · exact fun e he hmade => ⟨slash, hreach e he hmade⟩
  · exact fun k hk => h.not_above_made h.rooted hl hk

/-- Removing a scratch file that waits. -/
theorem discard (h : Recoverable origin (w :: rest) moves made d) :
    Recoverable origin rest moves made (discard w.pending.scratch d) := by
  obtain ⟨hwaits, htouched⟩ := h.waits w List.mem_cons_self
  have hnames := hwaits.named.of_keepsWays h.keepsWays
  rw [Output.discard, removeFile_after hnames hwaits.hasFile]
  have hget := Disk.get?_erase_eq (d := d) hnames.ne_nil
  refine ⟨h.toAccounted.discard rfl hget, h.old, ?_, ?_, h.spared, h.unmakable⟩
  · exact h.rooted.erase hnames.ne_nil fun k hlk hne =>
      h.rooted.get?_eq_none_of_prefix (Disk.not_hasDirectory_of_hasFile hwaits.hasFile) hlk hne
  · exact h.reversible.update hnames.ne_nil htouched (Or.inr hwaits.hasFile) rfl hget

/-- A file that waited is in place: undoing the move gives the disk without the scratch file. -/
theorem place (h : Recoverable origin (w :: rest) moves made d) (he : e.Rooted)
    (hkeeps : d.KeepsWays e) (hholds : m.Holds e.get?) (hnamed : m.NamedOn d)
    (hundo : m.undo e.get? = Function.update d.get? w.spot none)
    (hspared : ∀ l ∈ m.touched, ¬ d.LeadsOn l) (hrest : ∀ w' ∈ rest, w'.spot ∉ m.touched) :
    Recoverable origin rest (m :: moves) made e := by
  obtain ⟨hwaits, htouched⟩ := h.waits w List.mem_cons_self
  have hne : w.spot ≠ [] := Disk.ne_nil_of_hasFile hwaits.hasFile
  refine ⟨h.toAccounted.place hkeeps.workingDirectory hkeeps.keeps.entries hundo hrest, h.old, he,
    ?_, ?_, h.unmakable⟩
  · refine ⟨hnamed.of_keepsWays hkeeps, hholds, fun e' hw' hget' => ?_⟩
    rw [hundo] at hget'
    have hw'' := hw'.trans hkeeps.workingDirectory
    refine ⟨fun q b hb => (hnamed.2 q b hb).of_keepsWays (.of_update hw'' hget' ?_), ?_⟩
    · exact Disk.not_leadsOn_of_hasFile hwaits.hasFile
    · exact h.reversible.update hne htouched (Or.inr hwaits.hasFile) hw'' hget'
  · intro l hl
    rcases mem_touchedBy_cons.mp hl with hmem | hmem
    · exact fun hleads => hspared l hmem (h.keepsWays.leadsOn hleads)
    · exact h.spared l hmem

end Recoverable

/-- Moving what is no directory to a place that a path names. -/
theorem rooted_of_moved (hd : d.Rooted) {y : Entry} (hl : d.get? l = some y)
    (hy : y.isDirectory = false) {slash : Bool} (hn : d.Names p k slash)
    (hk : ¬ d.HasDirectory k) : ((d.erase l).put k y).Rooted ∧
      ((d.erase l).put k y).get? = Function.update (Function.update d.get? l none) k (some y) := by
  have hnot : ¬ d.HasDirectory l := by
    rintro ⟨n, hn⟩
    obtain rfl : y = .directory n := by simpa [hl] using hn
    simp [Entry.isDirectory] at hy
  have hne : l ≠ [] := by
    rintro rfl
    exact hnot d.hasDirectory_root
  have hget := Disk.get?_erase_eq (d := d) hne
  have hkeep : ∀ j, (d.erase l).HasDirectory j ↔ d.HasDirectory j := by
    intro j
    rw [Disk.HasDirectory, Disk.HasDirectory, hget]
    by_cases hj : j = l
    · subst hj
      simpa [Disk.HasDirectory] using hnot
    · rw [Function.update_of_ne hj]
  refine ⟨?_, by rw [Disk.get?_put_eq hn.ne_nil, hget]⟩
  obtain ⟨parent, s, rfl, hparent⟩ := hn.inDirectory
  refine (hd.erase hne fun j hlj hj => hd.get?_eq_none_of_prefix hnot hlj hj).put ?_ ?_ y
  · exact (hkeep parent).mpr hparent
  · exact fun hdir => hk ((hkeep _).mp hdir)

/-- Undoing the latest move on the disk undoes it on what lies where. -/
theorem Reversible.takeBack_spec (h : Reversible (m :: moves) d) (hd : d.Rooted) :
    (m.placed.takeBack d).Rooted ∧
      (m.placed.takeBack d).workingDirectory = d.workingDirectory ∧
      (m.placed.takeBack d).get? = m.undo d.get? := by
  obtain ⟨⟨htarget, hbackups⟩, hholds, hback⟩ := h
  have hspot := Disk.not_hasDirectory_of_hasFile hholds.spot
  cases hb : m.backup with
  | some qb =>
    obtain ⟨q, b⟩ := qb
    obtain ⟨hne, x, hx, hdir⟩ := hholds.backup q b hb
    have htake : m.placed.takeBack d = restored q m.target d := by
      simp [Placed.takeBack, Move.placed, hb]
    obtain ⟨hrooted, hget⟩ := rooted_of_moved hd hx hdir htarget hspot
    have hundo : ((d.erase b).put m.spot x).get? = m.undo d.get? := by
      rw [hget, Move.undo_of_some hb, hx]
    have hafter := (hback ((d.erase b).put m.spot x) rfl hundo).1 q b hb
    rw [htake, restored_eq (hbackups q b hb) htarget hx hdir hspot hne hafter]
    exact ⟨hrooted, rfl, hundo⟩
  | none =>
    have htake : m.placed.takeBack d = d.erase m.spot := by
      simp [Placed.takeBack, Move.placed, hb, removeFile_after htarget hholds.spot]
    rw [htake, Move.undo_of_none hb]
    refine ⟨?_, rfl, Disk.get?_erase_eq htarget.ne_nil⟩
    exact hd.erase htarget.ne_nil fun k hk hne => hd.get?_eq_none_of_prefix hspot hk hne

namespace Recoverable

/-- Undoing the latest move. -/
theorem undo (h : Recoverable origin waiting (m :: moves) made d) :
    Recoverable origin waiting moves made (m.placed.takeBack d) := by
  obtain ⟨hrooted, hw, hget⟩ := h.reversible.takeBack_spec h.rooted
  obtain ⟨-, hholds, hback⟩ := h.reversible
  refine ⟨h.toAccounted.undo hw (fun _ _ hl => hholds.directories hget hl) hget, h.old, hrooted,
    (hback _ hw hget).2, fun l hl => ?_, h.unmakable⟩
  exact h.spared l (mem_touchedBy_cons.mpr (Or.inr hl))

/-- Removing the directory that was made last. -/
theorem removeMade (h : Recoverable origin waiting [] (g :: made) d) :
    Recoverable origin waiting [] made ((removeDirectory g.path).after d) := by
  obtain ⟨hreach, habove, holder⟩ := h.unmakable
  obtain ⟨hstands, -⟩ := h.fresh g List.mem_cons_self
  have hempty : ∀ k, g.spot <+: k → k ≠ g.spot → d.get? k = none := fun k hgk hne =>
    h.empty_of_latest h.old habove hgk hne
  obtain ⟨slash, hnames⟩ := hreach d h.within fun k hk =>
    (h.fresh k (List.mem_cons_of_mem g hk)).1
  rw [removeDirectory_after hnames ⟨_, hstands⟩ (Disk.hasChildren_eq_false_iff.mpr hempty)]
  exact ⟨h.toAccounted.removeMade habove rfl (Disk.get?_erase_eq hnames.ne_nil), h.old,
    h.rooted.erase hnames.ne_nil hempty, trivial, by simp, holder⟩

theorem takeBackAll (h : Recoverable origin waiting moves made d) :
    Recoverable origin waiting [] made
      ((moves.map Move.placed).foldl (fun d p => p.takeBack d) d) := by
  induction moves generalizing d with
  | nil => exact h
  | cons m moves ih => exact ih h.undo

theorem removeAllMade (h : Recoverable origin waiting [] made d) :
    Recoverable origin waiting [] []
      ((made.map Made.path).foldl (fun d p => (removeDirectory p).after d) d) := by
  induction made generalizing d with
  | nil => exact h
  | cons g made ih => exact ih h.removeMade

/-- Undoing the journal leaves nothing but the scratch files that wait. -/
theorem takenBack (h : Recoverable origin waiting moves made d) :
    Recoverable origin waiting [] [] ((journalOf moves made).takenBack d) :=
  h.takeBackAll.removeAllMade

/-- Removing all scratch files that wait. -/
theorem discardAll (h : Recoverable origin waiting moves made d) :
    Recoverable origin [] moves made (discardAll (waiting.map (·.pending.scratch)) d) := by
  induction waiting generalizing d with
  | nil => exact h
  | cons w rest ih => exact ih h.discard

end Recoverable

end ProtoForge.Output
