import ProtoForge.Proofs.Files.Growth
import ProtoForge.Proofs.Generation.Location

/-!
# Canonical paths

A canonical path spells out a location from the root. As only directories lie
above what has a name, it is followed without links, and so is every start of it.
-/
namespace ProtoForge

namespace Path

variable {p q : Path} {names : List String}

theorem startAndBody_root (ps : List String) (hps : ps ≠ []) : startAndBody ("" :: ps) = (.root, ps) := by
  obtain ⟨x, xs, rfl⟩ := List.exists_cons_of_ne_nil hps
  rfl

/-- A path that starts with a slash has the root as its first component. -/
theorem head_of_isAbsolute (h : q.isAbsolute = true) : q.components.head? = some .root := by
  rw [isAbsolute, String.startsWith_string_iff] at h
  obtain ⟨rest, hrest⟩ := h
  have htext : q.text = "" ++ "/" ++ String.ofList rest := by
    rw [← String.toList_inj, ← hrest]
    simp
  rw [components_eq_startAndBody, htext, pieces_append, pieces_empty, List.singleton_append,
    startAndBody_root _ (pieces_ne_nil _)]
  rfl

/-- Joining puts the pieces of a relative path after those of a directory; an empty piece at the
end of these is lost. -/
theorem pieces_join_eq (hp : p.text ≠ "") (hq : q.isAbsolute = false) :
    ∃ before idle, pieces p.text = before ++ idle ∧ before ≠ [] ∧
      (before = [""] → idle ≠ []) ∧ (∀ s ∈ idle, isIdle s = true) ∧
      pieces (p.join q).text = before ++ pieces q.text := by
  by_cases hend : p.text.endsWith "/" = true
  · obtain ⟨u, hu⟩ := endsWith_iff.mp hend
    refine ⟨pieces u, [""], ?_, pieces_ne_nil u, fun _ => List.cons_ne_nil _ _, by simp [isIdle], ?_⟩
    · have h := pieces_append u ""
      rwa [String.append_empty, pieces_empty, ← hu] at h
    · rw [join, if_neg (by simp [hq]), if_pos (by simp [hend]), hu, pieces_append]
  · refine ⟨pieces p.text, [], (List.append_nil _).symm, pieces_ne_nil _, fun hempty => ?_, by simp, ?_⟩
    · exact absurd (pieces_eq_empty_iff.mp hempty) hp
    · rw [join, if_neg (by simp [hq]), if_neg (by simp [hp, hend]), pieces_append]

/-- Following a joined path begins as following the directory does. -/
theorem startOf_join_eq (hp : p.text ≠ "") (hq : q.isAbsolute = false) (base : Files.Location) :
    ∃ start before idle, Files.Disk.startOf base p.text = (start, before ++ idle) ∧
      (∀ s ∈ idle, isIdle s = true) ∧
      Files.Disk.startOf base (p.join q).text = (start, before ++ pieces q.text) := by
  obtain ⟨before, idle, hpieces, hne, hroot, hidle, hjoin⟩ := pieces_join_eq hp hq
  obtain ⟨x, rest, rfl⟩ := List.exists_cons_of_ne_nil hne
  by_cases hx : x = ""
  · subst hx
    cases rest with
    | nil =>
      obtain ⟨y, ys, rfl⟩ := List.exists_cons_of_ne_nil (hroot rfl)
      obtain ⟨z, zs, hz⟩ := List.exists_cons_of_ne_nil (pieces_ne_nil q.text)
      refine ⟨[], [], y :: ys, ?_, hidle, ?_⟩
      · rw [Files.Disk.startOf, hpieces]
        rfl
      · rw [Files.Disk.startOf, hjoin, hz]
        rfl
    | cons y ys =>
      refine ⟨[], y :: ys, idle, ?_, hidle, ?_⟩
      · rw [Files.Disk.startOf, hpieces]
        rfl
      · rw [Files.Disk.startOf, hjoin]
        rfl
  · have hplain : ∀ text more, pieces text = x :: rest ++ more →
        Files.Disk.startOf base text = (base, x :: rest ++ more) := by
      intro text more htext
      rw [Files.Disk.startOf, htext]
      split
      · rename_i heq
        exact absurd (List.cons_eq_cons.mp heq).1 hx
      · rfl
    exact ⟨base, x :: rest, idle, hplain _ _ hpieces, hidle, hplain _ _ hjoin⟩

end Path

namespace Files.Disk

variable {d : Disk} {links : ℕ} {base l k : Location} {p q : Path} {x : Entry}
  {steps xs ys names : List String}

/-- The path of a location consists of the root and its names. -/
theorem components_pathOf (hl : ∀ s ∈ l, Path.IsOrdinary s) :
    (pathOf l).components = .root :: l.map .name := by
  rw [Path.components_eq_startAndBody]
  have hpieces : Path.pieces (pathOf l).text = "" :: Path.pieces (Path.ofPieces l) := by
    have h := Path.pieces_append "" (Path.ofPieces l)
    rwa [String.empty_append, Path.pieces_empty] at h
  rw [hpieces, Path.startAndBody_root _ (Path.pieces_ne_nil _)]
  have hmoves : (Path.moving (Path.pieces (Path.ofPieces l))).map Path.step = l.map .name := by
    by_cases hnil : l = []
    · subst hnil
      rfl
    · rw [Path.pieces_ofNames hnil hl, Path.moving_eq_self hl, Path.map_step_names hl]
  rw [hmoves]
  rfl

/-- A path with the root and names as its components starts at the root and moves by the names. -/
theorem startOf_of_components (hp : p.components = .root :: names.map .name)
    (hnames : ∀ s ∈ names, Path.IsOrdinary s) (base : Location) :
    (startOf base p.text).1 = [] ∧ Path.moving (startOf base p.text).2 = names := by
  rw [← Path.map_step_names hnames, Path.components_eq] at hp
  obtain ⟨hroot, hmoves⟩ :=
    Path.eq_of_components_eq (a := p.split.1) (b := .root) hp
  obtain ⟨hstart, hmoves'⟩ := startOf_moving base p
  exact ⟨by rw [hstart, hroot]; rfl, hmoves'.trans hmoves⟩

/-- Names are followed one below the other where no links are. -/
theorem eq_of_descend_names {followLast : Bool} (h : d.descend links l steps followLast = .ok k)
    (hsteps : Path.moving steps = names) (hnames : ∀ s ∈ names, Path.IsOrdinary s)
    (hlink : ∀ ps t, ps <+: names → d.get? (l ++ ps) ≠ some (.link t)) : k = l ++ names := by
  induction steps generalizing l names with
  | nil =>
    rw [descend] at h
    rw [← hsteps, Path.moving_nil, List.append_nil, Except.ok.inj h]
  | cons s rest ih =>
    rw [descend] at h
    cases hat : d.get? l with
    | none => simp [hat] at h
    | some entry =>
      cases entry with
      | file c m => simp [hat] at h
      | link t => simp [hat] at h
      | directory m =>
        simp only [hat] at h
        by_cases hidle : Path.isIdle s = true
        · rw [if_pos hidle] at h
          rw [Path.moving_cons_of_idle hidle] at hsteps
          exact ih h hsteps hnames hlink
        rw [Path.moving_cons_of_not_idle (by simpa using hidle)] at hsteps
        have hs := hnames s (by rw [← hsteps]; exact List.mem_cons_self)
        by_cases hlong : maxName < Bytes.textSize s
        · simp [hidle, hs.ne_up, hlong] at h
        rw [if_neg hidle, if_neg hs.ne_up, if_neg hlong] at h
        -- the next step is a name, and what is there is no link
        have hnext : d.descend links (l ++ [s]) rest followLast = .ok k := by
          have hfirst := hlink [s]
          cases hx : d.get? (l ++ [s]) with
          | none => simp [hx] at h
          | some x =>
            cases x with
            | file c n => simpa [hx] using h
            | directory n => simpa [hx] using h
            | link t =>
              rw [← hsteps] at hfirst
              exact absurd hx (hfirst t (List.cons_prefix_cons.mpr ⟨rfl, List.nil_prefix⟩))
        subst hsteps
        rw [ih hnext rfl (fun t ht => hnames t (List.mem_cons_of_mem s ht)) fun ps t hps => ?_]
        · rw [List.append_assoc, List.singleton_append]
        · rw [List.append_assoc, List.singleton_append]
          exact hlink (s :: ps) t (List.cons_prefix_cons.mpr ⟨rfl, hps⟩)

theorem Follows.eq_of_names (h : d.Follows links l steps k) (hsteps : Path.moving steps = names)
    (hnames : ∀ s ∈ names, Path.IsOrdinary s)
    (hlink : ∀ ps t, ps <+: names → d.get? (l ++ ps) ≠ some (.link t)) : k = l ++ names :=
  eq_of_descend_names (follows_iff.mp h) hsteps hnames hlink

/-- Names are followed one below the other where directories are. -/
theorem follows_names_of_directories (hsteps : Path.moving steps = names) (hnames : ∀ s ∈ names, IsName s)
    (hdirs : ∀ ps, ps <+: names → d.HasDirectory (l ++ ps)) : d.Follows 0 l steps (l ++ names) := by
  induction steps generalizing l names with
  | nil =>
    rw [← hsteps, Path.moving_nil, List.append_nil]
    exact .done 0 l
  | cons s rest ih =>
    have hl : d.HasDirectory l := by simpa using hdirs [] List.nil_prefix
    by_cases hs : Path.isIdle s = true
    · rw [Path.moving_cons_of_idle hs] at hsteps
      exact .idle hl hs (ih hsteps hnames hdirs)
    · rw [Path.moving_cons_of_not_idle (by simpa using hs)] at hsteps
      subst hsteps
      obtain ⟨m, hm⟩ := hdirs [s] (List.cons_prefix_cons.mpr ⟨rfl, List.nil_prefix⟩)
      have hbelow : ∀ ps, ps <+: Path.moving rest → d.HasDirectory (l ++ [s] ++ ps) := by
        intro ps hps
        rw [List.append_assoc, List.singleton_append]
        exact hdirs (s :: ps) (List.cons_prefix_cons.mpr ⟨rfl, hps⟩)
      have hrest := ih rfl (fun t ht => hnames t (List.mem_cons_of_mem s ht)) hbelow
      rw [List.append_assoc, List.singleton_append] at hrest
      exact .entry hl (hnames s List.mem_cons_self) hm (by simp) hrest

/-- A path to somewhere in a disk. Where it leads, no link is. -/
theorem Follows.not_link (h : d.Follows links l steps k) (hd : d.Rooted)
    (hl : ∀ t, d.get? l ≠ some (.link t)) : ∀ t, d.get? k ≠ some (.link t) := by
  have hdir : ∀ l, d.HasDirectory l → ∀ t, d.get? l ≠ some (.link t) := by
    rintro l ⟨m, hm⟩ t ht
    simp [hm] at ht
  induction h with
  | done links l => exact hl
  | idle hl' hs more ih => exact ih hl
  | up hl' more ih => exact ih (hdir _ (hd.hasDirectory_dropLast hl'))
  | entry hl' hs hx hlink more ih =>
    refine ih fun t ht => ?_
    rw [hx] at ht
    exact hlink t (Option.some.inj ht)
  | @link links l s rest k t hl' hs ht more ih =>
    refine ih (hdir _ ?_)
    rw [startOf]
    split
    · exact hasDirectory_root d
    · exact hl'

theorem not_link_of_locate (hd : d.Rooted) (h : d.locate p true = .ok l) :
    ∀ t, d.get? l ≠ some (.link t) := by
  obtain ⟨-, hs⟩ := locate_iff.mp h
  refine hs.not_link hd fun t ht => ?_
  obtain ⟨m, hm⟩ := hs.hasDirectory_of_ne_nil (startOf_ne_nil d.workingDirectory p.text)
  simp [hm] at ht

/-- No link is on the way to a location that has an entry, nor at its end. -/
theorem IsProper.not_link_of_isPrefix (hd : d.IsProper) {ps : List String} (hl : d.get? l = some x)
    (hlink : ∀ t, x ≠ .link t) (hps : ps <+: l) (t : String) : d.get? ps ≠ some (.link t) := by
  by_cases hne : l = ps
  · rw [← hne, hl]
    exact fun h => hlink t (Option.some.inj h)
  · obtain ⟨m, hm⟩ := hd.rooted.hasDirectory_of_prefix hps hne (by simp [hl])
    simp [hm]

/-- A canonical path, if it can be looked up, leads to its location. -/
theorem IsProper.eq_of_locate_canonical (hd : d.IsProper) {followLast : Bool}
    (hp : p.components = .root :: l.map .name) (hl : d.get? l = some x) (hlink : ∀ t, x ≠ .link t)
    (hk : d.locate p followLast = .ok k) : k = l := by
  have hnames : ∀ s ∈ l, Path.IsOrdinary s := fun s hs =>
    (hd.isFileName (by simp [hl]) s hs).toIsOrdinary
  obtain ⟨hstart, hmoves⟩ := startOf_of_components hp hnames d.workingDirectory
  obtain ⟨u, -, hdescend⟩ := bind_eq_ok.mp hk
  dsimp only at hdescend
  rw [hstart] at hdescend
  refine (eq_of_descend_names hdescend hmoves hnames fun ps t hps => ?_).trans (List.nil_append l)
  exact hd.not_link_of_isPrefix hl hlink hps t

/-- A canonical path to a directory is followed without links. -/
theorem IsProper.follows_canonical (hd : d.IsProper) (hp : p.components = .root :: l.map .name)
    (hl : d.HasDirectory l) : d.Follows 0 (startOf d.workingDirectory p.text).1
      (startOf d.workingDirectory p.text).2 l := by
  obtain ⟨m, hm⟩ := hl
  have hlegal := hd.isFileName (l := l) (by simp [hm])
  obtain ⟨hstart, hmoves⟩ := startOf_of_components hp (fun s hs => (hlegal s hs).toIsOrdinary)
    d.workingDirectory
  rw [hstart]
  refine follows_names_of_directories hmoves (fun s hs => (hlegal s hs).isName) fun ps hps => ?_
  rw [List.nil_append]
  by_cases hne : l = ps
  · exact hne ▸ ⟨m, hm⟩
  · exact hd.rooted.hasDirectory_of_prefix hps hne (by simp [hm])

theorem IsProper.leads_canonical (hd : d.IsProper) (hp : p.components = .root :: l.map .name)
    (hl : d.HasDirectory l) : d.Leads p l :=
  ⟨0, hd.follows_canonical hp hl⟩

/-- The steps before the first one that moves can be left out. -/
theorem Follows.skip_idle {s : String} (h : d.Follows links l steps k) (hsteps : Path.moving steps = s :: names) :
    ∃ rest, Path.moving rest = names ∧ d.Follows links l (s :: rest) k := by
  induction steps with
  | nil => cases hsteps
  | cons t rest ih =>
    by_cases ht : Path.isIdle t = true
    · rw [Path.moving_cons_of_idle ht] at hsteps
      cases h with
      | idle hl hs more => exact ih more hsteps
      | up hl more => exact absurd ht (by decide)
      | entry hl hs hx hlink more => simp [hs.moves] at ht
      | link hl hs hx more => simp [hs.moves] at ht
    · rw [Path.moving_cons_of_not_idle (by simpa using ht)] at hsteps
      obtain ⟨rfl, hrest⟩ := List.cons_eq_cons.mp hsteps
      exact ⟨rest, hrest, h⟩

/-- Where steps lead depends on those that move. -/
theorem Follows.eq_of_moving (h : d.Follows links l xs k) {more : ℕ} {m : Location}
    (h' : d.Follows more l ys m) (hmoves : Path.moving xs = Path.moving ys) : k = m := by
  induction h generalizing more ys with
  | done links l =>
    rw [Path.moving_nil] at hmoves
    have hidle : ∀ s ∈ ys, Path.isIdle s = true := by simpa [Path.moving] using hmoves.symm
    exact (h'.of_idle hidle).1
  | idle hl hs _ ih =>
    rw [Path.moving_cons_of_idle hs] at hmoves
    exact ih h' hmoves
  | up hl _ ih =>
    rw [Path.moving_cons_of_not_idle (by decide)] at hmoves
    obtain ⟨rest, hrest, h''⟩ := h'.skip_idle hmoves.symm
    cases h'' with
    | idle hl' hs more => exact absurd hs (by decide)
    | up hl' more => exact ih more hrest.symm
    | entry hl' hs hx hlink more => exact absurd rfl hs.ne_up
    | link hl' hs hx more => exact absurd rfl hs.ne_up
  | entry hl hs hx hlink _ ih =>
    rw [Path.moving_cons_of_not_idle hs.moves] at hmoves
    obtain ⟨rest, hrest, h''⟩ := h'.skip_idle hmoves.symm
    cases h'' with
    | idle hl' hs' more => simp [hs.moves] at hs'
    | up hl' more => exact absurd rfl hs.ne_up
    | entry hl' hs' hx' hlink' more => exact ih more hrest.symm
    | link hl' hs' hx' more =>
      rw [hx] at hx'
      exact absurd (Option.some.inj hx') (hlink _)
  | @link links l s rest k t hl hs hx _ ih =>
    rw [Path.moving_cons_of_not_idle hs.moves] at hmoves
    obtain ⟨rest', hrest, h''⟩ := h'.skip_idle hmoves.symm
    cases h'' with
    | idle hl' hs' more => simp [hs.moves] at hs'
    | up hl' more => exact absurd rfl hs.ne_up
    | entry hl' hs' hx' hlink' more =>
      rw [hx] at hx'
      exact absurd (Option.some.inj hx').symm (hlink' _)
    | link hl' hs' hx' more =>
      rw [hx, Option.some.injEq, Entry.link.injEq] at hx'
      subst hx'
      exact ih more (by rw [Path.moving_append, Path.moving_append, hrest])

/-- A path that goes on where another one ends is followed as far as that one first. -/
theorem Follows.split_of_append (h : d.Follows links (startOf d.workingDirectory q.text).1
      (startOf d.workingDirectory q.text).2 k)
    (hq : q.components = p.components ++ steps.map Path.step) :
    ∃ top xs ys, d.Follows links (startOf d.workingDirectory p.text).1 xs top ∧
      Path.moving xs = Path.moving (startOf d.workingDirectory p.text).2 ∧
      Path.moving ys = steps ∧ d.Follows links top ys k := by
  obtain ⟨hstart, hmoves⟩ := Path.startOf_of_append hq d.workingDirectory
  rw [hstart] at h
  obtain ⟨xs, ys, hsteps, hxs, hys⟩ := List.filter_eq_append_iff.mp hmoves
  rw [hsteps] at h
  obtain ⟨top, hfirst, hrest⟩ := h.split
  exact ⟨top, xs, ys, hfirst, hxs, hys, hrest⟩

/-- Below a directory names are followed one below the other where no links are. -/
theorem Leads.below {dir : Path} (hdir : d.Leads dir l) (hp : d.Leads p k)
    (hcomponents : p.components = dir.components ++ names.map .name)
    (hnames : ∀ s ∈ names, Path.IsOrdinary s)
    (hlink : ∀ ps t, ps <+: names → d.get? (l ++ ps) ≠ some (.link t)) : k = l ++ names := by
  obtain ⟨n, hn⟩ := hdir
  obtain ⟨n', hn'⟩ := hp
  rw [← Path.map_step_names hnames] at hcomponents
  obtain ⟨top, xs, ys, hfirst, hxs, hys, hrest⟩ := hn'.split_of_append hcomponents
  obtain rfl : top = l := hfirst.eq_of_moving hn hxs
  exact hrest.eq_of_names hys hnames hlink

end Files.Disk

end ProtoForge
