import ProtoForge.Proofs.Generation.Batch
import ProtoForge.Proofs.Output.FreshPlaces
import ProtoForge.Proofs.Output.StepsUp

/-!
# Writing batches

The paths of a batch do not clash, so an output directory that holds nothing
or is missing is a free site for them: the batch is written, and the tree below
the directory is the batch. An output directory whose path goes up again from
a directory that is missing is the exception: nothing can be written there.
-/
namespace ProtoForge.Generation

open Files

variable {path s : String} {names moves : List String}

theorem IsPlainName.isOrdinary (h : IsPlainName s) : Path.IsOrdinary s :=
  ⟨by simp [Path.isIdle, h.ne_empty, h.ne_dot], h.ne_up, h.no_slash⟩

theorem pieces_of_isNormal (h : IsNormal path) :
    Path.pieces path ≠ [] ∧ ∀ s ∈ Path.pieces path, IsPlainName s := by
  obtain ⟨names, hne, hnames, rfl⟩ := h
  rw [Path.pieces_ofPieces (fun s hs => (hnames s hs).no_slash) hne]
  exact ⟨hne, hnames⟩

/-- A path in normal form goes on from a directory by its names. -/
theorem components_join_of_isNormal (h : IsNormal path) (out : Path) :
    (out.join ⟨path⟩).components = out.components ++ (Path.pieces path).map .name := by
  obtain ⟨hne, hnames⟩ := pieces_of_isNormal h
  have hrelative : (Path.mk path).isAbsolute = false := by
    rw [← ofPieces_pieces path]
    exact isAbsolute_ofPieces hne hnames
  have hordinary : ∀ s ∈ Path.pieces path, Path.IsOrdinary s := fun s hs => (hnames s hs).isOrdinary
  by_cases hempty : out.text = ""
  · have hjoin : out.join ⟨path⟩ = ⟨path⟩ := by simp [Path.join, hrelative, hempty]
    have hcomponents := components_ofPieces hne hnames
    rw [ofPieces_pieces] at hcomponents
    rw [hjoin, hcomponents, Path.components_eq_nil_iff.mpr hempty, List.nil_append]
  · rw [Path.components_join hempty hrelative, Path.moving_eq_self hordinary,
      Path.map_step_names hordinary]

theorem getLast?_pieces_join (h : IsNormal path) (out : Path) :
    (Path.pieces (out.join ⟨path⟩).text).getLast? = (Path.pieces path).getLast? := by
  obtain ⟨hne, hnames⟩ := pieces_of_isNormal h
  obtain ⟨before, hbefore⟩ := pieces_join out
  have hpieces := hbefore _ hne hnames
  rw [ofPieces_pieces] at hpieces
  rw [hpieces, List.getLast?_append_of_ne_nil _ hne]

namespace Batch

variable {b : Batch} {d e : Disk} {out base : Path} {l k : Location} {f g : GeneratedFile}
  {paths : List Path} {x : Entry}

/-- Of two files of a batch, neither path goes on from the other one. -/
theorem Indexed.eq_of_pieces (h : b.Indexed) (hf : f ∈ b.files) (hg : g ∈ b.files)
    (hpieces : Path.pieces f.path <+: Path.pieces g.path) : f = g := by
  obtain ⟨rest, hrest⟩ := hpieces
  have hpath := ofPieces_pieces g.path
  by_cases hnil : rest = []
  · rw [← hrest, hnil, List.append_nil, ofPieces_pieces] at hpath
    exact List.inj_on_of_nodup_map h.distinct hf hg hpath
  · rw [← hrest, ofPieces_append (Path.pieces_ne_nil _) hnil, ofPieces_pieces] at hpath
    exact absurd ⟨_, hpath.symm⟩ (h.apart f hf g hg)

/-- An output directory that holds nothing or is missing. Its path goes on from that of a directory
by some moves, none if it is the directory itself, and the first one is a name that the directory
does not hold. -/
structure FreshDirectory (d : Disk) (out base : Path) (l : Location) (moves : List String) :
    Prop where
  components : out.components = base.components ++ moves.map Path.step
  opens : d.Opens base l
  free : moves = [] ∧ d.hasChildren l = false ∨
    ∃ s rest, moves = s :: rest ∧ s ≠ ".." ∧ d.get? (l ++ [s]) = none

/-- The paths below an output directory are within the limits of the machine, and none of their
names is one of scratch files. -/
structure WithinLimits (b : Batch) (d : Disk) (out : Path) (moves : List String) : Prop where
  names : ∀ f ∈ b.files, ∀ s ∈ moves ++ Path.pieces f.path,
    Bytes.textSize s ≤ Disk.maxName ∧ ¬ IsScratchName Output.scratchStem s
  targets : ∀ f ∈ b.files, Disk.checkText (out.join ⟨f.path⟩).text = .ok ()
  scratch : ∀ f ∈ b.files,
    Output.Site.ScratchFits d (out.join ⟨f.path⟩) (d.entries.length + b.files.length)

/-- Limits that can be checked: file names do not begin like scratch files, and these go to the
root. -/
theorem withinLimits_of_root
    (hnames : ∀ f ∈ b.files, ∀ s ∈ moves ++ Path.pieces f.path,
      Bytes.textSize s ≤ Disk.maxName ∧ s.startsWith Output.scratchStem = false)
    (htargets : ∀ f ∈ b.files, Disk.checkText (out.join ⟨f.path⟩).text = .ok ())
    (hroot : ∀ f ∈ b.files, d.absolutize (Output.nearestDirectory d (out.join ⟨f.path⟩)) = ⟨"/"⟩)
    (hfits : ∀ n ≤ d.entries.length + b.files.length,
      Bytes.textSize (Output.scratchStem ++ Disk.sixDigits n) ≤ Disk.maxName ∧
      Disk.checkText ((Path.mk "/").join ⟨Output.scratchStem ++ Disk.sixDigits n⟩).text = .ok ()) :
    b.WithinLimits d out moves where
  names := fun f hf s hs =>
    ⟨(hnames f hf s hs).1, Output.not_isScratchName_of_startsWith (hnames f hf s hs).2⟩
  targets := htargets
  scratch := by
    intro f hf n hn
    rw [hroot f hf]
    exact hfits n hn

/-- The site of a batch in a directory. -/
abbrev site (b : Batch) (out base : Path) (l : Location) : Output.Site :=
  ⟨base, l, b.files.map fun f => out.join ⟨f.path⟩⟩

/-- Files with their contents below a location. -/
def places (b : Batch) (l : Location) : List (Location × Bytes) :=
  b.files.map fun f => (l ++ Path.pieces f.path, f.content)

/-- No two files of a batch have the same place. -/
theorem Indexed.nodup_places (h : b.Indexed) (l : Location) : ((b.places l).map Prod.fst).Nodup := by
  rw [places, List.map_map]
  refine List.Nodup.map_on (fun f hf g hg heq => ?_) (List.Nodup.of_map _ h.distinct)
  exact h.eq_of_pieces hf hg (List.append_cancel_left heq ▸ List.prefix_rfl)

/-- A file that was written lies at its place. -/
theorem Indexed.get?_of_wrote (h : b.Indexed) (hwrote : Output.Wrote d (b.places l) e)
    (hf : f ∈ b.files) :
    e.get? (l ++ Path.pieces f.path) = some (Output.scratchEntry f.content) := by
  refine hwrote.contents _ _ (Disk.lookup_eq_some_of_mem ?_ ?_)
  · rw [List.map_reverse, List.nodup_reverse]
    exact h.nodup_places l
  · exact List.mem_reverse.mpr (List.mem_map_of_mem hf)

/-- The tree below an output directory is a batch: its files with their contents, and the
directories above them. All else is as before. -/
structure Delivered (b : Batch) (d : Disk) (out : Path) (l : Location) (e : Disk) : Prop where
  opens : b.files ≠ [] → e.Opens out l
  below : ∀ k ≠ [], ∀ x, e.get? (l ++ k) = some x ↔
    (∃ f ∈ b.files, k = Path.pieces f.path ∧ x = Output.scratchEntry f.content) ∨
      ∃ f ∈ b.files, k <+: Path.pieces f.path ∧ k ≠ Path.pieces f.path ∧
        x = .directory (e.inheritedMode (l ++ k).dropLast)
  wrote : Output.Wrote d (b.places l) e

namespace FreshDirectory

/-- Moves but steps up are names. -/
theorem isOrdinary (h : FreshDirectory d out base l moves) (hs : s ∈ moves) (hup : s ≠ "..") :
    Path.IsOrdinary s := by
  obtain ⟨-, hmoves⟩ := Path.startOf_of_append h.components d.workingDirectory
  have hmem : s ∈ Path.moving (Disk.startOf d.workingDirectory out.text).2 := by
    rw [hmoves]
    exact List.mem_append_right _ hs
  obtain ⟨hstep, hidle⟩ := List.mem_filter.mp hmem
  exact ⟨by simpa using hidle, hup, Disk.not_mem_of_mem_startOf hstep⟩

theorem isOrdinary_moves (h : FreshDirectory d out base l moves) (hup : ".." ∉ moves) :
    ∀ s ∈ moves, Path.IsOrdinary s :=
  fun _ hs => h.isOrdinary hs fun heq => hup (heq ▸ hs)

/-- What the directory would hold by the first name of a path below it is missing. -/
theorem absent_head (h : FreshDirectory d out base l moves) :
    ∀ n ∈ (moves ++ names).head?, d.get? (l ++ [n]) = none := by
  intro n hn
  rcases h.free with ⟨rfl, hempty⟩ | ⟨s, rest, rfl, -, hnone⟩
  · exact Disk.hasChildren_eq_false_iff.mp hempty _ (List.prefix_append l [n]) (by simp)
  · obtain rfl : s = n := by simpa using hn
    exact hnone

/-- Nothing lies on the way to the output directory or below it. -/
theorem absent (h : FreshDirectory d out base l moves) (hd : d.Rooted) (hne : names ≠ [])
    (hnames : names <+: moves ++ k) : d.get? (l ++ names) = none := by
  obtain ⟨n, rest, rfl⟩ := List.exists_cons_of_ne_nil hne
  obtain ⟨more, hmore⟩ := hnames
  have hhead : n ∈ (moves ++ k).head? := by simp [← hmore]
  exact hd.absent_of_prefix (h.absent_head n hhead) ⟨rest, by simp⟩

/-- A file of a batch aims at the names of the output directory and its own. -/
theorem aims (h : FreshDirectory d out base l moves) (hup : ".." ∉ moves)
    (hlimits : b.WithinLimits d out moves) (hb : b.Indexed) (hf : f ∈ b.files) :
    (site b out base l).Aims (out.join ⟨f.path⟩) (moves ++ Path.pieces f.path) := by
  obtain ⟨hne, hplain⟩ := pieces_of_isNormal (hb.normal f hf)
  have hmoves := h.isOrdinary_moves hup
  constructor
  · rw [components_join_of_isNormal (hb.normal f hf), h.components, Path.map_step_names hmoves,
      List.map_append, List.append_assoc]
  · exact List.append_ne_nil_of_right_ne_nil moves hne
  · refine fun s hs => ⟨?_, (hlimits.names f hf s hs).1⟩
    exact (List.mem_append.mp hs).elim (hmoves s) fun hs => (hplain s hs).isOrdinary
  · exact fun s hs => (hlimits.names f hf s hs).2
  · rw [getLast?_pieces_join (hb.normal f hf), List.getLast?_append_of_ne_nil _ hne]
  · exact hlimits.targets f hf

/-- The paths of a batch find the output directory free. -/
theorem isFree (h : FreshDirectory d out base l moves) (hup : ".." ∉ moves)
    (hlimits : b.WithinLimits d out moves) (hb : b.Indexed) : (site b out base l).IsFree d where
  opens := h.opens
  aims := by
    intro t ht
    obtain ⟨f, hf, rfl⟩ := List.mem_map.mp ht
    exact ⟨_, h.aims hup hlimits hb hf, h.absent_head⟩
  apart := by
    rw [List.pairwise_map]
    refine List.Nodup.pairwise_of_forall_ne (List.Nodup.of_map _ hb.distinct) fun f hf g hg hne => ?_
    have hnot : ∀ f ∈ b.files, ∀ g ∈ b.files, f ≠ g →
        ¬ (out.join ⟨f.path⟩).components <+: (out.join ⟨g.path⟩).components := by
      intro f hf g hg hne hpre
      rw [components_join_of_isNormal (hb.normal f hf), components_join_of_isNormal (hb.normal g hg),
        List.prefix_append_right_inj] at hpre
      refine hne (hb.eq_of_pieces hf hg ?_)
      exact (List.prefix_map_iff_of_injective fun _ _ => Component.name.inj).mp hpre
    exact ⟨hnot f hf g hg hne, hnot g hg f hf hne.symm⟩

/-- Nothing lies below the output directory. -/
theorem absent_below (h : FreshDirectory d out base l moves) (hd : d.Rooted) (hk : k ≠ []) :
    d.get? (l ++ moves ++ k) = none := by
  rw [List.append_assoc]
  exact h.absent hd (List.append_ne_nil_of_right_ne_nil moves hk) List.prefix_rfl

/-- What was written to the site of a batch are the places of its files. -/
theorem written_eq (h : FreshDirectory d out base l moves) (hup : ".." ∉ moves)
    (hlimits : b.WithinLimits d out moves) (hb : b.Indexed) {written : List (Location × Bytes)}
    (hwritten : List.Forall₂ (fun f w => ∃ names, (site b out base l).Aims f.1 names ∧
      w = (l ++ names, f.2)) (b.outputs out) written) : written = b.places (l ++ moves) := by
  have hboth := (List.forall₂_and_left _ _).mpr
    ⟨fun _ hf => hf, (List.forall₂_map_left_iff).mp hwritten⟩
  symm
  rw [← List.forall₂_eq_eq_eq, places, List.forall₂_map_left_iff]
  refine hboth.imp fun f w hfw => ?_
  obtain ⟨hf, names, haims, rfl⟩ := hfw
  rw [haims.unique (h.aims hup hlimits hb hf), List.append_assoc]

/-- The output directory is there once a file was written below it. -/
theorem opens_out (h : FreshDirectory d out base l moves) (hup : ".." ∉ moves) (hd : d.Rooted)
    (hlimits : b.WithinLimits d out moves) (hkeeps : d.KeepsWays e)
    (hwrote : Output.Wrote d (b.places (l ++ moves)) e) (hf : f ∈ b.files) :
    e.Opens out (l ++ moves) := by
  refine (h.opens.keepsWays hkeeps).below ?_
    (fun s hs => ⟨h.isOrdinary_moves hup s hs, ?_⟩) fun names hnames => ?_
  · rw [h.components, Path.map_step_names (h.isOrdinary_moves hup)]
  · exact (hlimits.names f hf s (List.mem_append_left _ hs)).1
  by_cases hnil : names = []
  · rw [hnil, List.append_nil]
    exact hkeeps.hasDirectory h.opens.directory
  have habove : names <+: moves ++ Path.pieces f.path := hnames.trans (List.prefix_append _ _)
  refine ⟨_, hwrote.parents _ (h.absent hd hnil habove) ⟨_, List.mem_map_of_mem hf, ?_, ?_⟩⟩
  · rwa [List.append_assoc, List.prefix_append_right_inj]
  · rw [List.append_assoc, ne_eq, List.append_cancel_left_eq]
    rintro rfl
    have hlength := hnames.length_le
    exact Path.pieces_ne_nil f.path (by simpa using hlength)

/-- Above a file that was written there are directories, as far as the output directory. -/
theorem get?_above (h : FreshDirectory d out base l moves) (hd : d.Rooted)
    (hwrote : Output.Wrote d (b.places (l ++ moves)) e) (hk : k ≠ []) (hf : f ∈ b.files)
    (habove : k <+: Path.pieces f.path) (hne : k ≠ Path.pieces f.path) :
    e.get? (l ++ moves ++ k) = some (.directory (e.inheritedMode (l ++ moves ++ k).dropLast)) := by
  refine hwrote.parents _ (h.absent_below hd hk) ⟨_, List.mem_map_of_mem hf, ?_, ?_⟩
  · rwa [List.prefix_append_right_inj]
  · simpa using hne

/-- What is neither a file of the batch nor above one is missing below the output directory. -/
theorem get?_elsewhere (h : FreshDirectory d out base l moves) (hd : d.Rooted)
    (hwrote : Output.Wrote d (b.places (l ++ moves)) e) (hk : k ≠ [])
    (hnone : ∀ f ∈ b.files, ¬ k <+: Path.pieces f.path) : e.get? (l ++ moves ++ k) = none := by
  rw [← h.absent_below hd hk]
  refine hwrote.others _ (fun hmem => ?_) fun _ w hw habove => ?_
  · rw [places, List.map_map] at hmem
    obtain ⟨f, hf, heq⟩ := List.mem_map.mp hmem
    exact hnone f hf (List.append_cancel_left heq ▸ List.prefix_rfl)
  · obtain ⟨f, hf, rfl⟩ := List.mem_map.mp hw
    exact hnone f hf ((List.prefix_append_right_inj _).mp habove)

/-- With its files written, the tree below the output directory is the batch. -/
theorem delivered (h : FreshDirectory d out base l moves) (hup : ".." ∉ moves) (hd : d.Rooted)
    (hlimits : b.WithinLimits d out moves) (hb : b.Indexed) (hkeeps : d.KeepsWays e)
    (hwrote : Output.Wrote d (b.places (l ++ moves)) e) : b.Delivered d out (l ++ moves) e where
  opens := by
    intro hne
    obtain ⟨f, hf⟩ := List.exists_mem_of_ne_nil _ hne
    exact h.opens_out hup hd hlimits hkeeps hwrote hf
  below := by
    intro k hk x
    constructor
    · intro hx
      by_cases hsome : ∃ f ∈ b.files, k <+: Path.pieces f.path
      · obtain ⟨f, hf, habove⟩ := hsome
        by_cases hfile : k = Path.pieces f.path
        · rw [hfile, hb.get?_of_wrote hwrote hf] at hx
          exact Or.inl ⟨f, hf, hfile, (Option.some.inj hx).symm⟩
        · rw [h.get?_above hd hwrote hk hf habove hfile] at hx
          exact Or.inr ⟨f, hf, habove, hfile, (Option.some.inj hx).symm⟩
      · rw [h.get?_elsewhere hd hwrote hk fun f hf habove => hsome ⟨f, hf, habove⟩] at hx
        cases hx
    · rintro (⟨f, hf, rfl, rfl⟩ | ⟨f, hf, habove, hne, rfl⟩)
      · exact hb.get?_of_wrote hwrote hf
      · exact h.get?_above hd hwrote hk hf habove hne
  wrote := hwrote

end FreshDirectory

/-- A consistent batch is written to an output directory that holds nothing or is missing, if no
step leads up again. -/
theorem Indexed.writeTo_ok (hb : b.Indexed) (hd : d.IsProper)
    (h : FreshDirectory d out base l moves) (hlimits : b.WithinLimits d out moves)
    (hup : ".." ∉ moves) :
    ∃ e, outcome (b.writeTo out) d = (.ok (b.files.map fun f => out.join ⟨f.path⟩), e) ∧
      b.Delivered d out (l ++ moves) e := by
  have htargets : (b.outputs out).map Prod.fst = (site b out base l).targets := by
    rw [outputs, List.map_map]
    rfl
  have hfits : ∀ f ∈ b.outputs out,
      Output.Site.ScratchFits d f.1 (d.entries.length + (b.outputs out).length) := by
    rw [outputs, List.length_map]
    intro x hx
    obtain ⟨f, hf, rfl⟩ := List.mem_map.mp hx
    exact hlimits.scratch f hf
  obtain ⟨written, e, hwrite, hwrote, -, hkeeps, hwritten⟩ :=
    Output.writeAll_fresh hd (h.isFree hup hlimits hb) htargets hfits
  refine ⟨e, hwrite, h.delivered hup hd.rooted hlimits hb hkeeps ?_⟩
  rwa [← h.written_eq hup hlimits hb hwritten]

/-- No file is written to an output directory that steps lead up to again. -/
theorem Indexed.writeTo_up (hb : b.Indexed) (hd : d.Rooted)
    (h : FreshDirectory d out base l moves) (hlimits : b.WithinLimits d out moves)
    (hup : ".." ∈ moves) (hne : b.files ≠ []) : outcome (b.writeTo out) d ≠ (.ok paths, e) := by
  obtain ⟨f, rest, hfiles⟩ := List.exists_cons_of_ne_nil hne
  have hf : f ∈ b.files := by simp [hfiles]
  obtain ⟨hpieces, hplain⟩ := pieces_of_isNormal (hb.normal f hf)
  obtain ⟨before, x, hlast⟩ := (List.eq_nil_or_concat' (Path.pieces f.path)).resolve_left hpieces
  rcases h.free with ⟨rfl, -⟩ | ⟨s, more, rfl, hs, hnone⟩
  · simp at hup
  have hmore : ".." ∈ more := (List.mem_cons.mp hup).resolve_left hs.symm
  have htarget : (out.join ⟨f.path⟩).components =
      base.components ++ (s :: (more ++ before) ++ [x]).map Path.step := by
    rw [components_join_of_isNormal (hb.normal f hf), h.components,
      ← Path.map_step_names fun s hs => (hplain s hs).isOrdinary, hlast]
    simp
  rw [writeTo, outputs, hfiles, List.map_cons]
  exact Output.writeAll_up hd h.opens (h.isOrdinary List.mem_cons_self hs)
    (hlimits.names f hf s (by simp)).2 hnone htarget (by simp [hmore]) _ _ _ _

/-- Without files there is nothing to write. -/
theorem writeTo_nil (h : b.files = []) : outcome (b.writeTo out) d = (.ok [], d) := by
  rw [writeTo, outputs, h]
  rfl

/-- However a batch came about, it is written to an output directory that holds nothing or is
missing, unless the path of the directory goes up again from one that is missing. The paths are
returned in the order of the batch, and the tree below the directory is the batch. -/
theorem writeTo_freshDirectory (adds : List (String × Plugin.Response)) (hd : d.IsProper)
    (h : FreshDirectory d out base l moves)
    (hlimits : (afterAdds adds).WithinLimits d out moves) :
    ((∃ paths e, outcome ((afterAdds adds).writeTo out) d = (.ok paths, e)) ↔
        (afterAdds adds).files = [] ∨ ".." ∉ moves) ∧
      ∀ paths e, outcome ((afterAdds adds).writeTo out) d = (.ok paths, e) →
        paths = (afterAdds adds).files.map (fun f => out.join ⟨f.path⟩) ∧
          ((afterAdds adds).files = [] → e = d) ∧
          (".." ∉ moves → (afterAdds adds).Delivered d out (l ++ moves) e) := by
  have hb : (afterAdds adds).Indexed :=
    List.foldlRecOn adds _ indexed_empty fun b hb a ha => hb.add a.1 a.2
  by_cases hnil : (afterAdds adds).files = []
  · have hwrite : outcome ((afterAdds adds).writeTo out) d = (.ok [], d) := writeTo_nil hnil
    refine ⟨⟨fun _ => Or.inl hnil, fun _ => ⟨_, _, hwrite⟩⟩, fun paths e hpaths => ?_⟩
    obtain ⟨rfl, rfl⟩ : [] = paths ∧ d = e := by simpa [hwrite] using hpaths
    refine ⟨by simp [hnil], fun _ => rfl, fun hup => ?_⟩
    obtain ⟨e, hwrite', hdelivered⟩ := hb.writeTo_ok hd h hlimits hup
    obtain rfl : d = e := by simpa [hnil, hwrite] using hwrite'
    exact hdelivered
  by_cases hup : ".." ∈ moves
  · have hfails : ∀ paths e, outcome ((afterAdds adds).writeTo out) d ≠ (.ok paths, e) :=
      fun paths e => hb.writeTo_up hd.rooted h hlimits hup hnil
    refine ⟨⟨fun ⟨paths, e, hwrite⟩ => absurd hwrite (hfails paths e), fun hor => ?_⟩,
      fun paths e hwrite => absurd hwrite (hfails paths e)⟩
    exact hor.elim (fun h => absurd h hnil) fun h => absurd hup h
  · obtain ⟨e, hwrite, hdelivered⟩ := hb.writeTo_ok hd h hlimits hup
    refine ⟨⟨fun _ => Or.inr hup, fun _ => ⟨_, _, hwrite⟩⟩, fun paths e' hpaths => ?_⟩
    obtain ⟨rfl, rfl⟩ : _ = paths ∧ e = e' := by simpa [hwrite] using hpaths
    exact ⟨rfl, fun h => absurd h hnil, fun _ => hdelivered⟩

/-- A disk that holds nothing. -/
def blankDisk : Disk := ⟨[], []⟩

theorem blankDisk_isProper : blankDisk.IsProper := Disk.isProper_of_entries (by decide) (by decide)

/-- Two generators, of which the second one writes below a directory. -/
def twoAnswers : List (String × Plugin.Response) :=
  [("g", { files := [{ name := some "a.txt", content := some "A" }] }),
    ("h", { files := [{ name := some "sub/b.txt", content := some "B" }] })]

theorem twoAnswers_delivered :
    FreshDirectory blankDisk ⟨"/new/out"⟩ ⟨"/"⟩ [] ["new", "out"] ∧
      (afterAdds twoAnswers).WithinLimits blankDisk ⟨"/new/out"⟩ ["new", "out"] ∧
      ∃ e, outcome ((afterAdds twoAnswers).writeTo ⟨"/new/out"⟩) blankDisk =
          (.ok [⟨"/new/out/a.txt"⟩, ⟨"/new/out/sub/b.txt"⟩], e) ∧
        (afterAdds twoAnswers).Delivered blankDisk ⟨"/new/out"⟩ ["new", "out"] e := by
  have hdir : FreshDirectory blankDisk ⟨"/new/out"⟩ ⟨"/"⟩ [] ["new", "out"] :=
    ⟨by cbv, .of_locate (by cbv) ⟨_, rfl⟩, Or.inr ⟨"new", ["out"], rfl, by decide, rfl⟩⟩
  have hfiles : (afterAdds twoAnswers).files =
      [⟨"a.txt", [65], "g"⟩, ⟨"sub/b.txt", [66], "h"⟩] := by cbv
  have hlimits : (afterAdds twoAnswers).WithinLimits blankDisk ⟨"/new/out"⟩ ["new", "out"] := by
    apply withinLimits_of_root <;> rw [hfiles]
    · decide
    · decide +kernel
    · rw [List.forall_mem_cons, List.forall_mem_singleton]
      exact ⟨by cbv, by cbv⟩
    · decide +kernel
  obtain ⟨hok, hpaths⟩ := writeTo_freshDirectory twoAnswers blankDisk_isProper hdir hlimits
  obtain ⟨paths, e, hwrite⟩ := hok.mpr (Or.inr (by decide))
  obtain ⟨rfl, -, hdelivered⟩ := hpaths paths e hwrite
  refine ⟨hdir, hlimits, e, ?_, hdelivered (by decide)⟩
  rw [hwrite, hfiles]
  cbv

/-- A generator with one file. -/
def oneAnswer : List (String × Plugin.Response) :=
  [("g", { files := [{ name := some "a.txt", content := some "A" }] })]

/-- Nothing is written below `/missing/../out`: once `/missing` was made, `/missing/..` is there and
cannot be made. -/
theorem oneAnswer_not_written :
    blankDisk.IsProper ∧
      FreshDirectory blankDisk ⟨"/missing/../out"⟩ ⟨"/"⟩ [] ["missing", "..", "out"] ∧
      (afterAdds oneAnswer).WithinLimits blankDisk ⟨"/missing/../out"⟩ ["missing", "..", "out"] ∧
      ∀ paths e, outcome ((afterAdds oneAnswer).writeTo ⟨"/missing/../out"⟩) blankDisk ≠
        (.ok paths, e) := by
  have hdir : FreshDirectory blankDisk ⟨"/missing/../out"⟩ ⟨"/"⟩ [] ["missing", "..", "out"] :=
    ⟨by cbv, .of_locate (by cbv) ⟨_, rfl⟩,
      Or.inr ⟨"missing", ["..", "out"], rfl, by decide, rfl⟩⟩
  have hfiles : (afterAdds oneAnswer).files = [⟨"a.txt", [65], "g"⟩] := by cbv
  have hlimits : (afterAdds oneAnswer).WithinLimits blankDisk ⟨"/missing/../out"⟩
      ["missing", "..", "out"] := by
    apply withinLimits_of_root <;> rw [hfiles]
    · decide
    · decide +kernel
    · have hjoin : (Path.mk "/missing/../out").join ⟨"a.txt"⟩ = ⟨"/missing/../out/a.txt"⟩ := by
        decide +kernel
      rw [List.forall_mem_singleton, hjoin]
      cbv
    · decide +kernel
  have hb : (afterAdds oneAnswer).Indexed := indexed_empty.add "g" _
  exact ⟨blankDisk_isProper, hdir, hlimits, fun paths e =>
    hb.writeTo_up blankDisk_isProper.rooted hdir hlimits (by decide) (by simp [hfiles])⟩

end Batch

end ProtoForge.Generation
