import ProtoForge.Proofs.Files.CanonicalPaths

/-!
# Paths that open directories

Following a path to a directory depends on its components alone, so a path
opens a directory in all its spellings. What lies below the directory is
reached by the names that come after these components, as far as directories
go; and where a name is missing, nothing is reached through it.
-/
namespace ProtoForge

namespace Path

variable {p q : Path} {s : String} {ps : List String} {cs : List Component}

/-- A path is written from its start and the pieces after it. -/
theorem ofSplit_split (p : Path) : ofSplit p.split.1 p.split.2 = p := by
  have htext := Generation.ofPieces_pieces p.text
  rw [split_eq_startAndBody]
  obtain ⟨x, xs, hx⟩ := List.exists_cons_of_ne_nil (pieces_ne_nil p.text)
  rw [hx] at htext ⊢
  by_cases hempty : x = ""
  · subst hempty
    cases xs with
    | nil => exact congrArg Path.mk htext
    | cons y ys =>
      rw [← List.singleton_append, Generation.ofPieces_append (List.cons_ne_nil _ _)
        (List.cons_ne_nil _ _)] at htext
      exact congrArg Path.mk (by simpa [ofPieces, startAndBody] using htext)
  by_cases hdot : x = "."
  · subst hdot
    cases xs with
    | nil => exact congrArg Path.mk (by simpa [ofPieces] using htext)
    | cons y ys =>
      rw [← List.singleton_append, Generation.ofPieces_append (List.cons_ne_nil _ _)
        (List.cons_ne_nil _ _)] at htext
      exact congrArg Path.mk (by simpa [ofPieces, startAndBody] using htext)
  · rw [startAndBody_of_ne hempty hdot]
    exact congrArg Path.mk htext

/-- More pieces make a longer text. -/
theorem text_ofSplit_append (start : PathStart) (ps qs : List String) :
    ∃ rest, (ofSplit start (ps ++ qs)).text = (ofSplit start ps).text ++ rest := by
  have hpieces : ∃ rest, ofPieces (ps ++ qs) = ofPieces ps ++ rest := by
    by_cases hps : ps = []
    · exact ⟨ofPieces qs, by simp [hps, ofPieces]⟩
    by_cases hqs : qs = []
    · exact ⟨"", by simp [hqs]⟩
    · exact ⟨"/" ++ ofPieces qs, by rw [Generation.ofPieces_append hps hqs, String.append_assoc]⟩
  obtain ⟨rest, hrest⟩ := hpieces
  cases start with
  | root => exact ⟨rest, by simp only [ofSplit, hrest, String.append_assoc]⟩
  | plain => exact ⟨rest, by simp only [ofSplit, hrest]⟩
  | here =>
    cases ps with
    | cons x xs =>
      refine ⟨rest, ?_⟩
      change "./" ++ ofPieces (x :: xs ++ qs) = "./" ++ ofPieces (x :: xs) ++ rest
      rw [hrest, String.append_assoc]
    | nil =>
      cases qs with
      | nil => exact ⟨"", rfl⟩
      | cons y ys => exact ⟨"/" ++ ofPieces (y :: ys), by simp [ofSplit, ← String.append_assoc]⟩

/-- A parent is the path as far as some piece, which is not idle. -/
theorem parent_eq_ofSplit (h : p.parent? = some q) :
    q = ⟨""⟩ ∨ ∃ ps, q = ofSplit p.split.1 (trimEnd ps) ∧ trimEnd ps <+: p.split.2 ∧ p.split.2 ≠ [""] := by
  rw [parent?] at h
  cases htrim : (trimEnd p.split.2).reverse with
  | nil =>
    simp only [htrim] at h
    split_ifs at h with hhere
    exact Or.inl (by simpa using h.symm)
  | cons x before =>
    simp only [htrim, Option.some.injEq] at h
    have hbody : trimEnd p.split.2 = before.reverse ++ [x] := by
      simpa using congrArg List.reverse htrim
    refine Or.inr ⟨before.reverse, h.symm, ?_, fun hone => ?_⟩
    · refine (trimEnd_isPrefix before.reverse).trans (List.IsPrefix.trans ?_ (trimEnd_isPrefix p.split.2))
      exact hbody ▸ List.prefix_append before.reverse [x]
    · rw [hone] at hbody
      simp [trimEnd, isIdle] at hbody

/-- The text of a parent comes first in the text of its path. -/
theorem text_parent (h : p.parent? = some q) : ∃ rest, p.text = q.text ++ rest := by
  rcases parent_eq_ofSplit h with rfl | ⟨ps, rfl, ⟨more, hmore⟩, -⟩
  · exact ⟨p.text, by simp⟩
  · have htext := text_ofSplit_append p.split.1 (trimEnd ps) more
    rwa [hmore, ofSplit_split] at htext

theorem getLast?_pieces_ofSplit {start : PathStart} (hps : ∀ s ∈ ps, '/' ∉ s.toList) (hne : ps ≠ []) :
    (pieces (ofSplit start ps).text).getLast? = ps.getLast? := by
  have hpieces := pieces_ofPieces hps hne
  obtain ⟨x, xs, rfl⟩ := List.exists_cons_of_ne_nil hne
  cases start with
  | plain => rw [ofSplit, hpieces]
  | root =>
    have h := pieces_append "" (ofPieces (x :: xs))
    rw [String.empty_append, hpieces, pieces_empty] at h
    rw [ofSplit, h, List.singleton_append, List.getLast?_cons_cons]
  | here =>
    have h := pieces_append "." (ofPieces (x :: xs))
    rw [hpieces, pieces_eq_singleton (s := ".") (by decide)] at h
    change (pieces ("./" ++ ofPieces (x :: xs))).getLast? = _
    rw [show "./" = "." ++ "/" from rfl, h, List.singleton_append, List.getLast?_cons_cons]

/-- A parent that ends in a name ends in it as a text. -/
theorem getLast?_pieces_parent (h : p.parent? = some q) (hq : q.components = cs ++ [.name s]) :
    (pieces q.text).getLast? = some s := by
  rcases parent_eq_ofSplit h with rfl | ⟨ps, rfl, hps, hne⟩
  · have hnil : (Path.mk "").components = [] := components_eq_nil_iff.mpr rfl
    simp [hnil] at hq
  rw [components_ofSplit_start hps (Or.inl hne)] at hq
  rcases List.eq_nil_or_concat (trimEnd ps) with hnil | ⟨before, x, hconcat⟩
  · rw [hnil] at hq
    cases hstart : p.split.1 <;> simp [hstart, PathStart.components, List.singleton_eq_append_iff] at hq
  · rw [List.concat_eq_append] at hconcat
    have hreverse : (trimEnd ps).reverse = x :: before.reverse := by rw [hconcat]; simp
    have hx : isIdle x = false := isIdle_of_trimEnd_reverse hreverse
    rw [hconcat, moving_append, moving_cons_of_not_idle hx, moving_nil, List.map_append,
      ← List.append_assoc] at hq
    obtain ⟨-, hlast⟩ := List.append_inj' hq rfl
    have hstep : step x = .name s := by simpa using hlast
    have hxs : x = s := by
      rw [step] at hstep
      split_ifs at hstep
      exact Component.name.inj hstep
    rw [getLast?_pieces_ofSplit (fun y hy => not_mem_of_mem_body (hps.subset hy)) (by simp [hconcat]),
      hconcat, List.getLast?_concat, hxs]

/-- A parent that goes on by names ends in the last of them. -/
theorem last_of_parent {dir : Path} (hq : p.parent? = some q)
    (hcomponents : q.components = dir.components ++ ps.map .name) :
    ∀ n ∈ ps.getLast?, (pieces q.text).getLast? = some n := by
  intro n hn
  obtain ⟨before, rfl⟩ := List.getLast?_eq_some_iff.mp hn
  rw [List.map_append, ← List.append_assoc] at hcomponents
  exact getLast?_pieces_parent hq hcomponents

end Path

namespace Files.Disk

variable {d e : Disk} {links : ℕ} {l k : Location} {p q : Path} {s : String}
  {xs ys steps moves : List String}

theorem checkText_eq_ok_iff {text : String} : checkText text = .ok () ↔
    '\x00' ∉ text.toList ∧ text ≠ "" ∧ Bytes.textSize text < maxPath := by
  rw [checkText]
  split_ifs with hnul hempty hsize <;> simp_all [String.contains_char_eq]

instance (text : String) : Decidable (checkText text = .ok ()) :=
  decidable_of_iff _ checkText_eq_ok_iff.symm

/-- A text that can name a file can do so as far as it is not empty. -/
theorem checkText_of_append {text rest : String} (h : checkText (text ++ rest) = .ok ())
    (hne : text ≠ "") : checkText text = .ok () := by
  obtain ⟨hnul, -, hsize⟩ := checkText_eq_ok_iff.mp h
  refine checkText_eq_ok_iff.mpr ⟨fun hmem => hnul (by simp [hmem]), hne, hsize.trans_le' ?_⟩
  simp [Bytes.textSize, Bytes.ofText]

/-- A relative path is followed from where one is. -/
theorem startOf_of_relative (hp : p.isAbsolute = false) (base : Location) :
    startOf base p.text = (base, Path.pieces p.text) := by
  rw [startOf]
  split
  · rename_i b rest heq
    have htext := Generation.ofPieces_pieces p.text
    rw [heq, ← List.singleton_append, Generation.ofPieces_append (List.cons_ne_nil _ _)
      (List.cons_ne_nil _ _)] at htext
    rw [Path.isAbsolute, String.startsWith_string_eq_false_iff] at hp
    exact absurd ⟨(Path.ofPieces (b :: rest)).toList, by simp [← htext, Path.ofPieces]⟩ hp
  · rfl

/-- Idle steps before others do not count. -/
theorem Follows.after_idle (h : d.Follows links l ys k) (hl : d.HasDirectory l)
    (hidle : ∀ s ∈ xs, Path.isIdle s = true) : d.Follows links l (xs ++ ys) k := by
  induction xs with
  | nil => exact h
  | cons s rest ih =>
    exact .idle hl (hidle s List.mem_cons_self) (ih fun t ht => hidle t (List.mem_cons_of_mem s ht))

/-- Steps that move begin with the first move, after some that are idle. -/
theorem exists_idle_append (h : Path.moving steps = s :: moves) :
    ∃ idle rest, steps = idle ++ s :: rest ∧ (∀ t ∈ idle, Path.isIdle t = true) ∧
      Path.moving rest = moves := by
  obtain ⟨idle, rest, hsteps, hidle, -, hrest⟩ := List.filter_eq_cons_iff.mp h
  exact ⟨idle, rest, hsteps, fun t ht => by simpa using hidle t ht, hrest⟩

/-- Steps with the same moves lead to the same directory. -/
theorem Follows.of_moving (h : d.Follows links l xs k) (hk : d.HasDirectory k)
    (hmoves : Path.moving ys = Path.moving xs) : d.Follows links l ys k := by
  induction h generalizing ys with
  | done links l =>
    have hidle : ∀ s ∈ ys, Path.isIdle s = true := by simpa [Path.moving] using hmoves
    simpa using (Follows.done links l).after_idle hk hidle
  | idle hl hs more ih =>
    rw [Path.moving_cons_of_idle hs] at hmoves
    exact ih hk hmoves
  | up hl more ih =>
    rw [Path.moving_cons_of_not_idle (by decide)] at hmoves
    obtain ⟨idle, rest, rfl, hidle, hrest⟩ := exists_idle_append hmoves
    exact (Follows.up hl (ih hk hrest)).after_idle hl hidle
  | entry hl hs hx hlink more ih =>
    rw [Path.moving_cons_of_not_idle hs.moves] at hmoves
    obtain ⟨idle, rest, rfl, hidle, hrest⟩ := exists_idle_append hmoves
    exact (Follows.entry hl hs hx hlink (ih hk hrest)).after_idle hl hidle
  | link hl hs ht more ih =>
    rw [Path.moving_cons_of_not_idle hs.moves] at hmoves
    obtain ⟨idle, rest, rfl, hidle, hrest⟩ := exists_idle_append hmoves
    refine (Follows.link hl hs ht (ih hk ?_)).after_idle hl hidle
    rw [Path.moving_append, Path.moving_append, hrest]

/-- Following a path leads to a directory, however long its text is and if it is empty. -/
structure Opens (d : Disk) (p : Path) (l : Location) : Prop where
  follows : d.Follows maxLinks (startOf d.workingDirectory p.text).1
    (startOf d.workingDirectory p.text).2 l
  directory : d.HasDirectory l

namespace Opens

theorem of_locate (h : d.locate p true = .ok l) (hl : d.HasDirectory l) : d.Opens p l :=
  ⟨(locate_iff.mp h).2, hl⟩

theorem locate (h : d.Opens p l) (htext : checkText p.text = .ok ()) : d.locate p true = .ok l :=
  locate_iff.mpr ⟨htext, h.follows⟩

theorem status (h : d.Opens p l) (htext : checkText p.text = .ok ()) :
    ∃ m, d.status p = .ok (l, .directory m) := by
  obtain ⟨m, hm⟩ := h.directory
  exact ⟨m, by simp [Disk.status, h.locate htext, hm]⟩

theorem reaches (h : d.Opens p l) (htext : checkText p.text = .ok ()) : d.reaches p = true := by
  obtain ⟨m, hm⟩ := h.status htext
  rw [Disk.reaches, hm]
  rfl

theorem isDirectory (h : d.Opens p l) (htext : checkText p.text = .ok ()) :
    d.isDirectory p = true := by
  obtain ⟨m, hm⟩ := h.status htext
  rw [Disk.isDirectory, hm]
  rfl

/-- A directory stays open while the ways to directories are kept. -/
theorem keepsWays (h : d.Opens p l) (hkeeps : d.KeepsWays e) : e.Opens p l := by
  refine ⟨?_, hkeeps.hasDirectory h.directory⟩
  rw [hkeeps.workingDirectory]
  exact hkeeps.follows h.follows h.directory

/-- Below an open directory the names of directories lead on. -/
theorem below (h : d.Opens p l) {names : List String}
    (hq : q.components = p.components ++ names.map .name)
    (hnames : ∀ s ∈ names, IsFileName s)
    (hdirs : ∀ ps, ps <+: names → d.HasDirectory (l ++ ps)) : d.Opens q (l ++ names) := by
  rw [← Path.map_step_names fun s hs => (hnames s hs).toIsOrdinary] at hq
  obtain ⟨hstart, hmoves⟩ := Path.startOf_of_append hq d.workingDirectory
  refine ⟨?_, hdirs names List.prefix_rfl⟩
  have hmoving : Path.moving names = names :=
    Path.moving_eq_self fun s hs => (hnames s hs).toIsOrdinary
  have hbelow : d.Follows 0 l names (l ++ names) :=
    follows_names_of_directories hmoving (fun s hs => (hnames s hs).isName) hdirs
  rw [hstart]
  refine (h.follows.append fun n => hbelow.mono (Nat.zero_le n)).of_moving
    (hdirs names List.prefix_rfl) ?_
  rw [hmoves, Path.moving_append, hmoving]

/-- All spellings of a path open the same directory. -/
theorem of_components (h : d.Opens p l) (hq : q.components = p.components) : d.Opens q l := by
  have hbelow : d.Opens q (l ++ []) := h.below (by simpa using hq) (by simp)
    fun ps hps => by simpa [List.prefix_nil.mp hps] using h.directory
  rwa [List.append_nil] at hbelow

/-- What goes on with a name that the directory does not hold reaches nothing. -/
theorem not_locate (h : d.Opens p l) (hq : q.components = p.components ++ (s :: moves).map Path.step)
    (hs : Path.IsOrdinary s) (hnone : d.get? (l ++ [s]) = none) : d.locate q true ≠ .ok k := by
  intro hk
  obtain ⟨top, xs, ys, hfirst, hxs, hys, hrest⟩ := (locate_iff.mp hk).2.split_of_append hq
  obtain rfl : top = l := hfirst.eq_of_moving h.follows hxs
  obtain ⟨rest, -, hname⟩ := hrest.skip_idle hys
  cases hname with
  | idle hl hidle more => simp [hs.moves] at hidle
  | up hl more => exact hs.ne_up rfl
  | entry hl hname hx hlink more => simp [hnone] at hx
  | link hl hname ht more => simp [hnone] at ht

theorem reaches_eq_false (h : d.Opens p l)
    (hq : q.components = p.components ++ (s :: moves).map Path.step) (hs : Path.IsOrdinary s)
    (hnone : d.get? (l ++ [s]) = none) : d.reaches q = false := by
  rw [Disk.reaches, Disk.status]
  cases hk : d.locate q true with
  | error f => rfl
  | ok k => exact absurd hk (h.not_locate hq hs hnone)

/-- A path with one more name, and nothing after it, names what the directory holds by it. -/
theorem names_of (h : d.Opens p l) (hq : q.components = p.components ++ [.name s])
    (hs : IsFileName s) (hlast : (Path.pieces q.text).getLast? = some s)
    (htext : checkText q.text = .ok ()) : d.Names q (l ++ [s]) false := by
  have hstep : q.components = p.components ++ [s].map Path.step := by
    rw [hq, List.map_singleton, hs.step_eq]
  obtain ⟨hstart, hmoves⟩ := Path.startOf_of_append hstep d.workingDirectory
  rw [← startOf_getLast? d.workingDirectory] at hlast
  obtain ⟨before, hsteps⟩ := List.getLast?_eq_some_iff.mp hlast
  rw [hsteps, Path.moving_append, Path.moving_cons_of_not_idle hs.moves] at hmoves
  have hbefore := List.append_cancel_right hmoves
  refine names_iff.mpr ⟨htext, before, l, s, ⟨0, hsteps, rfl⟩, hs.isName, ?_, h.directory, rfl⟩
  rw [hstart]
  exact h.follows.of_moving h.directory hbefore

/-- The directory names what lies in it by joining a name to its path. -/
theorem names_join (h : d.Opens p l) (hp : p.text ≠ "") (hs : IsFileName s)
    (htext : checkText (p.join ⟨s⟩).text = .ok ()) : d.Names (p.join ⟨s⟩) (l ++ [s]) false := by
  obtain ⟨before, hbefore⟩ := Path.pieces_join_name p hs.no_slash
  refine h.names_of (Path.components_join_name hp hs.toIsOrdinary) hs ?_ htext
  rw [hbefore, List.getLast?_concat]

/-- A path that opens a directory does so when it is spelled out from the root. -/
theorem absolutize (h : d.Opens p l) (hd : d.IsProper) : d.Opens (d.absolutize p) l := by
  rw [Disk.absolutize]
  split_ifs with habsolute
  · exact h
  have hrelative : p.isAbsolute = false := by simpa using habsolute
  have hsteps := startOf_of_relative hrelative d.workingDirectory
  have hfollows := h.follows
  rw [hsteps] at hfollows
  have hwd : d.HasDirectory d.workingDirectory := hfollows.hasDirectory h.directory
  have hlegal : ∀ s ∈ d.workingDirectory, Path.IsOrdinary s := by
    obtain ⟨m, hm⟩ := hwd
    exact fun s hs => (hd.isFileName (by simp [hm]) s hs).toIsOrdinary
  have hroot := hd.follows_canonical (components_pathOf hlegal) hwd
  obtain ⟨hstart, hmoves⟩ := Path.startOf_of_append
    (Path.components_join (p := pathOf d.workingDirectory) (by simp [pathOf]) hrelative)
    d.workingDirectory
  refine ⟨?_, h.directory⟩
  have hboth := hroot.append_add hfollows
  rw [Nat.zero_add] at hboth
  rw [hstart]
  refine hboth.of_moving h.directory ?_
  rw [hmoves, Path.moving_append]

end Opens

theorem absolutize_text_ne_empty (d : Disk) (p : Path) : (d.absolutize p).text ≠ "" := by
  rw [absolutize]
  split_ifs with habsolute
  · intro h
    rw [Path.isAbsolute, h] at habsolute
    exact absurd habsolute (by decide)
  · exact Path.join_text_ne_empty (by simp [pathOf])

end Files.Disk

end ProtoForge
