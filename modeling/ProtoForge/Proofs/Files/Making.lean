import ProtoForge.Proofs.Files.Rebuilding

/-!
# Making what is missing

Below a directory that a path opens, directories can be made and files written
wherever nothing else is in the way.
-/
namespace ProtoForge.Files

namespace Disk

variable {d e : Disk} {links : ℕ} {l k : Location} {p q : Path} {s t : String}
  {xs rest before after names : List String}

/-- Following stops where a directory does not hold the next name. -/
theorem Follows.descend_missing (h : d.Follows links l xs k) (hk : d.HasDirectory k) (hs : IsName s)
    (hnone : d.get? (k ++ [s]) = none) :
    d.descend links l (xs ++ s :: rest) true = .error .missing := by
  induction h with
  | done links l =>
    obtain ⟨m, hm⟩ := hk
    rw [List.nil_append, descend, hm]
    simp [hs.moves, hs.ne_up, Nat.not_lt.mpr hs.short, hnone]
  | idle hl hidle more ih =>
    obtain ⟨m, hm⟩ := hl
    rw [List.cons_append, descend, hm]
    simpa [hidle] using ih hk hnone
  | up hl more ih =>
    obtain ⟨m, hm⟩ := hl
    rw [List.cons_append, descend, hm]
    simpa [Path.isIdle] using ih hk hnone
  | @entry links l t rest' k x hl ht hx hlink more ih =>
    obtain ⟨m, hm⟩ := hl
    rw [List.cons_append, descend, hm]
    cases x with
    | link u => exact absurd rfl (hlink u)
    | file c n => simpa [ht.moves, ht.ne_up, Nat.not_lt.mpr ht.short, hx] using ih hk hnone
    | directory n => simpa [ht.moves, ht.ne_up, Nat.not_lt.mpr ht.short, hx] using ih hk hnone
  | link hl ht hlink more ih =>
    obtain ⟨m, hm⟩ := hl
    rw [List.cons_append, descend, hm]
    simpa [ht.moves, ht.ne_up, Nat.not_lt.mpr ht.short, hlink] using ih hk hnone

namespace Opens

/-- A path with more names, the last of which ends it, whatever idle steps come between. -/
theorem steps_of_names (hq : q.components = p.components ++ (names ++ [t]).map .name)
    (hnames : ∀ s ∈ names ++ [t], IsFileName s) (hlast : (Path.pieces q.text).getLast? = some t) :
    ∃ front, (startOf d.workingDirectory q.text).2 = front ++ [t] ∧
      (startOf d.workingDirectory q.text).1 = (startOf d.workingDirectory p.text).1 ∧
      Path.moving front = Path.moving (startOf d.workingDirectory p.text).2 ++ names := by
  rw [← Path.map_step_names fun s hs => (hnames s hs).toIsOrdinary] at hq
  obtain ⟨hstart, hmoves⟩ := Path.startOf_of_append hq d.workingDirectory
  rw [← startOf_getLast? d.workingDirectory] at hlast
  obtain ⟨front, hsteps⟩ := List.getLast?_eq_some_iff.mp hlast
  refine ⟨front, hsteps, hstart, ?_⟩
  rw [hsteps, Path.moving_append, Path.moving_cons_of_not_idle (hnames t (by simp)).moves,
    Path.moving_nil, ← List.append_assoc] at hmoves
  exact List.append_cancel_right hmoves

/-- Where a directory on the way is missing, nothing is reached and no entry can be made. -/
theorem missing_of_names (h : d.Opens p l)
    (hq : q.components = p.components ++ (before ++ s :: after ++ [t]).map .name)
    (hnames : ∀ n ∈ before ++ s :: after ++ [t], IsFileName n)
    (hlast : (Path.pieces q.text).getLast? = some t) (htext : checkText q.text = .ok ())
    (hdirs : ∀ ps, ps <+: before → d.HasDirectory (l ++ ps))
    (hnone : d.get? (l ++ before ++ [s]) = none) :
    d.newEntry q = .error .missing ∧ d.isDirectory q = false := by
  obtain ⟨front, hsteps, hstart, hmoves⟩ := steps_of_names (d := d) hq hnames hlast
  rw [← List.append_assoc] at hmoves
  obtain ⟨xs, ys, rfl, hxs, hys⟩ := List.filter_eq_append_iff.mp hmoves
  obtain ⟨idle, rest, rfl, hidle, -⟩ := exists_idle_append hys
  -- the steps up to the missing name lead to the directory that does not hold it
  have hlegal : ∀ n ∈ before, IsFileName n := fun n hn => hnames n (by simp [hn])
  have hbelow : d.Follows 0 l before (l ++ before) :=
    follows_names_of_directories (Path.moving_eq_self fun n hn => (hlegal n hn).toIsOrdinary)
      (fun n hn => (hlegal n hn).isName) hdirs
  have hdir := hdirs before List.prefix_rfl
  have hway : d.Follows maxLinks (startOf d.workingDirectory q.text).1 (xs ++ idle) (l ++ before) := by
    rw [hstart]
    refine (h.follows.append fun n => hbelow.mono (Nat.zero_le n)).of_moving hdir ?_
    have hxs' : Path.moving xs = Path.moving (startOf d.workingDirectory p.text).2 ++ before := hxs
    rw [Path.moving_append, hxs', Path.moving_append, Path.moving_eq_nil hidle, List.append_nil,
      Path.moving_eq_self fun n hn => (hlegal n hn).toIsOrdinary]
  have hmissing : ∀ more, d.descend maxLinks (startOf d.workingDirectory q.text).1
      (xs ++ (idle ++ s :: (rest ++ more))) true = .error .missing := by
    intro more
    rw [← List.append_assoc]
    exact hway.descend_missing hdir (hnames s (by simp)).isName hnone
  have ht : t ≠ "" := (hnames t (by simp)).ne_empty
  constructor
  · have hbefore := hmissing []
    rw [List.append_nil] at hbefore
    simp [newEntry, place, placeFrom, htext, hsteps, ht, hbefore]
  · have hlocate : d.locate q true = .error .missing := by
      have hall := hmissing [t]
      simp [Disk.locate, htext, hsteps, hall]
    simp [Disk.isDirectory, Disk.status, hlocate, Except.toOption]

end Opens

/-- Of the names below a directory all lead to directories, or there is a first one that is
missing. -/
theorem exists_missing (hl : d.HasDirectory l)
    (hfree : ∀ ps, ps <+: names → d.get? (l ++ ps) = none ∨ d.HasDirectory (l ++ ps)) :
    (∀ ps, ps <+: names → d.HasDirectory (l ++ ps)) ∨ ∃ before s after,
      names = before ++ s :: after ∧ (∀ ps, ps <+: before → d.HasDirectory (l ++ ps)) ∧
        d.get? (l ++ before ++ [s]) = none := by
  induction names using List.reverseRecOn with
  | nil =>
    left
    intro ps hps
    simpa [List.prefix_nil.mp hps] using hl
  | append_singleton names t ih =>
    rcases ih fun ps hps => hfree ps (hps.trans (List.prefix_append names [t])) with
      hall | ⟨before, s, after, rfl, hdirs, hnone⟩
    · rcases hfree (names ++ [t]) List.prefix_rfl with hnone | hdir
      · exact Or.inr ⟨names, t, [], rfl, hall, by rwa [List.append_assoc]⟩
      · left
        intro ps hps
        rcases List.prefix_concat_iff.mp hps with rfl | hps
        · exact hdir
        · exact hall ps hps
    · exact Or.inr ⟨before, s, after ++ [t], by simp, hdirs, hnone⟩

end Disk

open Disk

variable {d d₁ : Disk} {l : Location} {p q : Path} {names : List String} {t : String}

/-- A directory whose parent is missing is made after its parents. -/
theorem makeDirectories_of_missing (hempty : p.text ≠ "") (hmissing : d.newEntry p = .error .missing)
    (hnot : d.isDirectory p = false) (hparent : p.parent? = some q)
    (hmake : outcome (makeDirectories q) d = (.ok (), d₁)) :
    outcome (makeDirectories p) d = outcome (ensureDirectory p) d₁ := by
  rw [makeDirectories] at hmake
  rw [makeDirectories, Path.ancestors_eq, hparent, makeDirectoriesFrom,
    if_neg (by simpa [String.isEmpty_iff] using hempty), outcome_tryCatch, outcome_ensureDirectory,
    outcome_makeDirectory, hmissing]
  simp [hnot, outcome_bind, hmake]

/-- A directory whose parent is there is made at once. -/
theorem makeDirectories_of_newEntry (hempty : p.text ≠ "") (h : d.newEntry p = .ok l) :
    outcome (makeDirectories p) d = outcome (ensureDirectory p) d := by
  rw [makeDirectories, Path.ancestors_eq, makeDirectoriesFrom,
    if_neg (by simpa [String.isEmpty_iff] using hempty), outcome_tryCatch, outcome_ensureDirectory,
    outcome_makeDirectory, h]

theorem ensureDirectory_of_newEntry (h : d.newEntry p = .ok l) :
    outcome (ensureDirectory p) d = (.ok (), d.put l (.directory (d.inheritedMode l.dropLast))) := by
  rw [outcome_ensureDirectory, outcome_makeDirectory, h]

/-- A directory that is open need not be made. -/
theorem makeDirectories_of_opens (h : d.Opens p l) (htext : checkText p.text = .ok ()) :
    outcome (makeDirectories p) d = (.ok (), d) :=
  makeDirectories_again (Or.inr (h.isDirectory htext))

/-- All names below a location lead to directories, which were there or have been made. Nothing else
has changed. -/
structure MadeBelow (l : Location) (names : List String) (d e : Disk) : Prop where
  directories : ∀ ps, ps <+: names → e.HasDirectory (l ++ ps)
  frame : ∀ k, e.get? k = d.get? k ∨ d.get? k = none ∧ ∃ ps, ps <+: names ∧ k = l ++ ps

namespace MadeBelow

theorem refl (hdirs : ∀ ps, ps <+: names → d.HasDirectory (l ++ ps)) : MadeBelow l names d d :=
  ⟨hdirs, fun _ => Or.inl rfl⟩

theorem ne_concat_of_isPrefix {ps : List String} (h : ps <+: names) : ps ≠ names ++ [t] := by
  rintro rfl
  have hlength := h.length_le
  simp at hlength

theorem eq_none_of_append (h : MadeBelow l names d d₁)
    (hnone : d.get? (l ++ (names ++ [t])) = none) : d₁.get? (l ++ (names ++ [t])) = none := by
  rcases h.frame (l ++ (names ++ [t])) with heq | ⟨-, ps, hps, heq⟩
  · rw [heq, hnone]
  · exact absurd (List.append_cancel_left heq).symm (ne_concat_of_isPrefix hps)

/-- One more directory. -/
theorem concat (h : MadeBelow l names d d₁) (hnone : d.get? (l ++ (names ++ [t])) = none)
    (m : ℕ) : MadeBelow l (names ++ [t]) d (d₁.put (l ++ (names ++ [t])) (.directory m)) := by
  have hspot : l ++ (names ++ [t]) ≠ [] := by simp
  refine ⟨fun ps hps => ?_, fun k => ?_⟩
  · rcases List.prefix_concat_iff.mp hps with rfl | hps'
    · exact ⟨m, get?_put d₁ _ _ hspot⟩
    · obtain ⟨n, hn⟩ := h.directories ps hps'
      refine ⟨n, ?_⟩
      have hne : l ++ ps ≠ l ++ (names ++ [t]) :=
        fun heq => ne_concat_of_isPrefix hps' (List.append_cancel_left heq)
      rwa [get?_put_eq hspot, Function.update_of_ne hne]
  · by_cases hk : k = l ++ (names ++ [t])
    · right
      rw [hk]
      exact ⟨hnone, _, List.prefix_rfl, rfl⟩
    · rw [get?_put_eq hspot, Function.update_of_ne hk]
      rcases h.frame k with heq | ⟨hk', ps, hps, heq⟩
      · exact Or.inl heq
      · exact Or.inr ⟨hk', ps, hps.trans (List.prefix_append names [t]), heq⟩

end MadeBelow

/-- Directories are made below an open directory, unless something else is in the way. -/
theorem makeDirectories_ok (hd : d.Rooted) (h : d.Opens q l)
    (hp : p.components = q.components ++ names.map .name) (hnames : ∀ s ∈ names, IsFileName s)
    (hlast : ∀ t ∈ names.getLast?, (Path.pieces p.text).getLast? = some t)
    (htext : checkText p.text = .ok ())
    (hfree : ∀ ps, ps <+: names → d.get? (l ++ ps) = none ∨ d.HasDirectory (l ++ ps)) :
    ∃ d', outcome (makeDirectories p) d = (.ok (), d') ∧ MadeBelow l names d d' := by
  induction names using List.reverseRecOn generalizing p with
  | nil =>
    have hall : ∀ ps, ps <+: [] → d.HasDirectory (l ++ ps) := by
      intro ps hps
      simpa [List.prefix_nil.mp hps] using h.directory
    exact ⟨d, makeDirectories_of_opens (h.below hp hnames hall) htext, .refl hall⟩
  | append_singleton before t ih =>
    rcases exists_missing h.directory hfree with hall | ⟨first, s, after, hsplit, hdirs, hnone⟩
    · exact ⟨d, makeDirectories_of_opens (h.below hp hnames hall) htext, .refl hall⟩
    obtain ⟨r, hr, hcomponents⟩ := Path.exists_parent hp
    have hp' : p.components = r.components ++ [.name t] := by
      rw [hp, hcomponents, List.map_append, List.append_assoc]
      rfl
    have hne : p.text ≠ "" := by
      intro hempty
      simp [Path.components_eq_nil_iff.mpr hempty] at hp'
    have hlegal : ∀ n ∈ before, IsFileName n := fun n hn => hnames n (List.mem_append_left _ hn)
    have hend : (Path.pieces p.text).getLast? = some t := hlast t (by simp)
    -- nothing lies below the missing directory
    have hnone' : d.get? (l ++ (before ++ [t])) = none := by
      rw [hsplit]
      exact hd.absent_of_prefix hnone ⟨after, by simp⟩
    -- the last directory can be made once the others are there
    have hnew : ∀ e : Disk, d.Grown e → MadeBelow l before d e →
        e.newEntry p = .ok (l ++ (before ++ [t])) := by
      intro e hgrown hmade
      have hopens := (hgrown.opens h).below hcomponents hlegal hmade.directories
      have hnamed := hopens.names_of hp' (hnames t (by simp)) hend htext
      rw [List.append_assoc] at hnamed
      exact newEntry_eq_ok_iff.mpr ⟨⟨false, hnamed⟩, hmade.eq_none_of_append hnone'⟩
    rcases List.eq_nil_or_concat' after with rfl | ⟨more, u, rfl⟩
    · obtain ⟨rfl, -⟩ := List.append_inj' hsplit rfl
      have hstart : MadeBelow l before d d := .refl hdirs
      have hentry := hnew d (.refl d) hstart
      exact ⟨_, (makeDirectories_of_newEntry hne hentry).trans (ensureDirectory_of_newEntry hentry),
        hstart.concat hnone' _⟩
    · rw [← List.cons_append, ← List.append_assoc] at hsplit
      obtain ⟨rfl, hu⟩ := List.append_inj' hsplit rfl
      obtain rfl : t = u := by simpa using hu
      obtain ⟨hmissing, hnot⟩ := h.missing_of_names hp hnames hend htext hdirs hnone
      have hrtext : checkText r.text = .ok () := by
        obtain ⟨rest, hrest⟩ := Path.text_parent hr
        refine checkText_of_append (hrest ▸ htext) fun hempty => ?_
        simp [Path.components_eq_nil_iff.mpr hempty] at hcomponents
      obtain ⟨e, hmake, hmade⟩ := ih hcomponents hlegal (Path.last_of_parent hr hcomponents)
        hrtext fun ps hps => hfree ps (hps.trans (List.prefix_append _ _))
      have hentry := hnew e ((grows_makeDirectories r).of_outcome hmake) hmade
      exact ⟨_, (makeDirectories_of_missing hne hmissing hnot hr hmake).trans
        (ensureDirectory_of_newEntry hentry), hmade.concat hnone' _⟩

/-- A file is written where a path names nothing or a file. -/
theorem writeFile_ok (b : Bytes) (hn : d.Names p l false)
    (hfree : d.get? l = none ∨ View.HasFile d.get? l) :
    outcome (writeFile p b) d = (.ok (), d.put l (.file (.bytes b) (d.modeAt l))) := by
  obtain ⟨parent, s, hplace, hshort, rfl⟩ := hn
  rw [place] at hplace
  have htarget : d.writeTarget maxLinks d.workingDirectory p.text = .ok (parent ++ [s]) := by
    rw [writeTarget.eq_def]
    rcases hfree with hnone | ⟨c, m, hfile⟩
    · simp [hplace, Nat.not_lt.mpr hshort, hnone]
    · simp [hplace, Nat.not_lt.mpr hshort, hfile]
  rw [outcome_writeFile, htarget]

end ProtoForge.Files
