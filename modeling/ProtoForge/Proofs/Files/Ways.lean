import ProtoForge.Proofs.Files.Operations
import ProtoForge.Proofs.Files.Scratch

/-!
# Following links

Following a path through links as a derivation, one rule for each kind of
step. A way to a directory crosses directories and links that lead to
directories, and nothing else; so a path that names an entry goes on naming it
on every disk that keeps these, whatever becomes of files and of links to
files.
-/
namespace ProtoForge.Files

namespace Disk

/-- Where steps lead from a location if at most some number of links is followed. -/
inductive Follows (d : Disk) : ℕ → Location → List String → Location → Prop
  | done (links l) : Follows d links l [] l
  | idle {links l s rest k} (hl : d.HasDirectory l) (hs : Path.isIdle s = true)
      (more : Follows d links l rest k) : Follows d links l (s :: rest) k
  | up {links l rest k} (hl : d.HasDirectory l) (more : Follows d links l.dropLast rest k) :
      Follows d links l (".." :: rest) k
  | entry {links l s rest k x} (hl : d.HasDirectory l) (hs : IsName s)
      (hx : d.get? (l ++ [s]) = some x) (hlink : ∀ t, x ≠ .link t)
      (more : Follows d links (l ++ [s]) rest k) : Follows d links l (s :: rest) k
  | link {links l s rest k t} (hl : d.HasDirectory l) (hs : IsName s)
      (ht : d.get? (l ++ [s]) = some (.link t))
      (more : Follows d links (startOf l t).1 ((startOf l t).2 ++ rest) k) :
      Follows d (links + 1) l (s :: rest) k

/-- A path to a directory may cross a location: a directory lies there, or a link that leads to
one. -/
def LeadsOn (d : Disk) (l : Location) : Prop :=
  d.HasDirectory l ∨ ∃ parent s t, l = parent ++ [s] ∧ d.get? l = some (.link t) ∧
    ∃ links k, d.Follows links (startOf parent t).1 (startOf parent t).2 k ∧ d.HasDirectory k

/-- Whatever paths to directories may cross on one disk is on another, seen from the same
place. -/
structure KeepsWays (d e : Disk) : Prop where
  workingDirectory : e.workingDirectory = d.workingDirectory
  entries : ∀ l, d.LeadsOn l → e.get? l = d.get? l

variable {d e f : Disk} {links links' : ℕ} {l k m parent : Location}
  {steps xs ys rest before : List String} {s t : String} {p : Path} {slash : Bool}
  {K : String → Prop}

/-- The derivations are what `descend` computes. -/
theorem follows_iff : d.Follows links l steps k ↔ d.descend links l steps true = .ok k := by
  constructor
  · intro h
    induction h with
    | done links l => rw [descend]
    | idle hl hs more ih => exact descend_cons_eq_ok.mpr ⟨hl, .inl ⟨hs, ih⟩⟩
    | up hl more ih => exact descend_cons_eq_ok.mpr ⟨hl, .inr (.inl ⟨rfl, ih⟩)⟩
    | entry hl hs hx hlink more ih =>
      exact descend_cons_eq_ok.mpr ⟨hl, .inr (.inr (.inl ⟨hs, _, hx, hlink, ih⟩))⟩
    | link hl hs ht more ih =>
      exact descend_cons_eq_ok.mpr ⟨hl, .inr (.inr (.inr ⟨hs, _, _, rfl, ht, ih⟩))⟩
  · intro h
    -- a link uses up one of the links that may be followed, any other step one of the steps
    induction links using Nat.strong_induction_on generalizing l steps with
    | _ links ihLinks =>
      induction steps generalizing l with
      | nil =>
        rw [descend] at h
        cases h
        exact .done _ _
      | cons s rest ih =>
        obtain ⟨hl, ⟨hs, hmore⟩ | ⟨rfl, hmore⟩ | ⟨hs, x, hx, hlink, hmore⟩ |
          ⟨hs, t, n, rfl, ht, hmore⟩⟩ := descend_cons_eq_ok.mp h
        · exact .idle hl hs (ih hmore)
        · exact .up hl (ih hmore)
        · exact .entry hl hs hx hlink (ih hmore)
        · exact .link hl hs ht (ihLinks n (Nat.lt_succ_self n) hmore)

namespace Follows

theorem eq (h : d.Follows links l steps k) (h' : d.Follows links l steps m) : k = m := by
  rw [follows_iff] at h h'
  simpa [h] using h'

theorem succ (h : d.Follows links l steps k) : d.Follows (links + 1) l steps k := by
  induction h with
  | done links l => exact .done _ l
  | idle hl hs more ih => exact .idle hl hs ih
  | up hl more ih => exact .up hl ih
  | entry hl hs hx hlink more ih => exact .entry hl hs hx hlink ih
  | link hl hs ht more ih => exact .link hl hs ht ih

theorem mono (h : d.Follows links l steps k) (hle : links ≤ links') :
    d.Follows links' l steps k := by
  induction hle with
  | refl => exact h
  | step hle ih => exact ih.succ

/-- Where steps lead does not depend on how many links may be followed. -/
theorem unique (h : d.Follows links l steps k) (h' : d.Follows links' l steps m) : k = m :=
  (h.mono (le_max_left links links')).eq (h'.mono (le_max_right links links'))

/-- Only a directory leads on. -/
theorem hasDirectory_of_ne_nil (h : d.Follows links l steps k) (hne : steps ≠ []) :
    d.HasDirectory l := by
  cases h with
  | done => exact absurd rfl hne
  | idle hl hs more => exact hl
  | up hl more => exact hl
  | entry hl hs hx hlink more => exact hl
  | link hl hs ht more => exact hl

theorem hasDirectory (h : d.Follows links l steps k) (hk : d.HasDirectory k) :
    d.HasDirectory l := by
  cases steps with
  | nil =>
    cases h
    exact hk
  | cons s steps => exact h.hasDirectory_of_ne_nil (List.cons_ne_nil s steps)

/-- Steps in two parts are followed one part after the other. -/
theorem split (h : d.Follows links l (xs ++ ys) k) :
    ∃ m, d.Follows links l xs m ∧ d.Follows links m ys k := by
  generalize hsteps : xs ++ ys = steps at h
  induction h generalizing xs with
  | done links l =>
    obtain ⟨rfl, rfl⟩ := List.append_eq_nil_iff.mp hsteps
    exact ⟨l, .done links l, .done links l⟩
  | @idle links l s rest k hl hs more ih =>
    cases xs with
    | nil => exact ⟨l, .done links l, (show ys = s :: rest from hsteps) ▸ .idle hl hs more⟩
    | cons x xs =>
      obtain ⟨rfl, rfl⟩ := List.cons_eq_cons.mp hsteps
      obtain ⟨m, hm, hrest⟩ := ih rfl
      exact ⟨m, .idle hl hs hm, hrest⟩
  | @up links l rest k hl more ih =>
    cases xs with
    | nil => exact ⟨l, .done links l, (show ys = ".." :: rest from hsteps) ▸ .up hl more⟩
    | cons x xs =>
      obtain ⟨rfl, rfl⟩ := List.cons_eq_cons.mp hsteps
      obtain ⟨m, hm, hrest⟩ := ih rfl
      exact ⟨m, .up hl hm, hrest⟩
  | @entry links l s rest k x hl hs hx hlink more ih =>
    cases xs with
    | nil =>
      exact ⟨l, .done links l, (show ys = s :: rest from hsteps) ▸ .entry hl hs hx hlink more⟩
    | cons x xs =>
      obtain ⟨rfl, rfl⟩ := List.cons_eq_cons.mp hsteps
      obtain ⟨m, hm, hrest⟩ := ih rfl
      exact ⟨m, .entry hl hs hx hlink hm, hrest⟩
  | @link links l s rest k t hl hs ht more ih =>
    cases xs with
    | nil =>
      exact ⟨l, .done (links + 1) l, (show ys = s :: rest from hsteps) ▸ .link hl hs ht more⟩
    | cons x xs =>
      obtain ⟨rfl, rfl⟩ := List.cons_eq_cons.mp hsteps
      obtain ⟨m, hm, hrest⟩ := ih (List.append_assoc _ _ _)
      exact ⟨m, .link hl hs ht hm, hrest.succ⟩

/-- Steps that need no links may come after others. -/
theorem append (h : d.Follows links l xs m) (h' : ∀ n, d.Follows n m ys k) :
    d.Follows links l (xs ++ ys) k := by
  induction h with
  | done links l => exact h' links
  | idle hl hs more ih => exact .idle hl hs (ih h')
  | up hl more ih => exact .up hl (ih h')
  | entry hl hs hx hlink more ih => exact .entry hl hs hx hlink (ih h')
  | link hl hs ht more ih =>
    have hmore := ih h'
    rw [List.append_assoc] at hmore
    exact .link hl hs ht hmore

theorem of_replicate {n : ℕ} (h : d.Follows links l (List.replicate n "") k) : l = k := by
  induction n generalizing l with
  | zero =>
    cases h
    rfl
  | succ n ih =>
    generalize hsteps : List.replicate (n + 1) "" = steps at h
    cases h with
    | done => cases hsteps
    | idle hl hs more =>
      obtain ⟨-, rfl⟩ := List.cons_eq_cons.mp hsteps
      exact ih more
    | up hl more => exact absurd (List.cons_eq_cons.mp hsteps).1 (by decide)
    | entry hl hs hx hlink more =>
      obtain ⟨rfl, -⟩ := List.cons_eq_cons.mp hsteps
      exact absurd hs.moves (by decide)
    | link hl hs ht more =>
      obtain ⟨rfl, -⟩ := List.cons_eq_cons.mp hsteps
      exact absurd hs.moves (by decide)

/-- Following a path to a directory on another disk, on which all directories are and all links
that the path may cross. The path and these links move by steps of one kind. -/
theorem carry (h : d.Follows links l steps k) (hk : d.HasDirectory k)
    (hsteps : ∀ s ∈ Path.moving steps, K s) (hdirs : ∀ l, d.HasDirectory l → e.get? l = d.get? l)
    (hlinks : ∀ l s t, K s → d.LeadsOn (l ++ [s]) → d.get? (l ++ [s]) = some (.link t) →
      e.get? (l ++ [s]) = some (.link t) ∧ ∀ x ∈ Path.moving (Path.split ⟨t⟩).2, K x) :
    e.Follows links l steps k := by
  have hmove : ∀ l, d.HasDirectory l → e.HasDirectory l := by
    rintro l ⟨m, hm⟩
    exact ⟨m, by rw [hdirs l ⟨m, hm⟩, hm]⟩
  induction h with
  | done links l => exact .done links l
  | idle hl hs more ih =>
    rw [Path.moving_cons_of_idle hs] at hsteps
    exact .idle (hmove _ hl) hs (ih hk hsteps)
  | up hl more ih =>
    rw [Path.moving_cons_of_not_idle (by decide)] at hsteps
    exact .up (hmove _ hl) (ih hk fun x hx => hsteps x (List.mem_cons_of_mem _ hx))
  | entry hl hs hx hlink more ih =>
    rw [Path.moving_cons_of_not_idle hs.moves] at hsteps
    refine .entry (hmove _ hl) hs ((hdirs _ (more.hasDirectory hk)).trans hx) hlink ?_
    exact ih hk fun x hx => hsteps x (List.mem_cons_of_mem _ hx)
  | @link links l s rest k t hl hs ht more ih =>
    rw [Path.moving_cons_of_not_idle hs.moves] at hsteps
    obtain ⟨m, hm, hrest⟩ := more.split
    have hleads : d.LeadsOn (l ++ [s]) :=
      Or.inr ⟨l, s, t, rfl, ht, links, m, hm, hrest.hasDirectory hk⟩
    obtain ⟨ht', hknown⟩ := hlinks l s t (hsteps s List.mem_cons_self) hleads ht
    refine .link (hmove _ hl) hs ht' (ih hk fun x hx => ?_)
    rw [Path.moving_append, (startOf_moving l ⟨t⟩).2] at hx
    rcases List.mem_append.mp hx with hx | hx
    · exact hknown x hx
    · exact hsteps x (List.mem_cons_of_mem _ hx)

end Follows

theorem not_leadsOn_of_absent (hl : d.get? l = none) : ¬ d.LeadsOn l := by
  rintro (⟨m, hm⟩ | ⟨parent, s, t, -, ht, -⟩)
  · simp [hl] at hm
  · simp [hl] at ht

theorem not_leadsOn_of_hasFile (hl : View.HasFile d.get? l) : ¬ d.LeadsOn l := by
  obtain ⟨c, n, hfile⟩ := hl
  rintro (⟨m, hm⟩ | ⟨parent, s, t, -, ht, -⟩)
  · simp [hfile] at hm
  · simp [hfile] at ht

namespace KeepsWays

theorem follows (h : d.KeepsWays e) (hs : d.Follows links l steps k) (hk : d.HasDirectory k) :
    e.Follows links l steps k :=
  hs.carry (K := fun _ => True) hk (fun _ _ => trivial) (fun l hl => h.entries l (.inl hl))
    fun l s _ _ hleads ht => ⟨(h.entries (l ++ [s]) hleads).trans ht, fun _ _ => trivial⟩

theorem keeps (h : d.KeepsWays e) : d.Keeps e :=
  ⟨h.workingDirectory, fun l m hl => (h.entries l (.inl ⟨m, hl⟩)).trans hl⟩

theorem hasDirectory (h : d.KeepsWays e) (hl : d.HasDirectory l) : e.HasDirectory l :=
  h.keeps.directories l hl

theorem leadsOn (h : d.KeepsWays e) (hl : d.LeadsOn l) : e.LeadsOn l := by
  have hsame := h.entries l hl
  rcases hl with hdir | ⟨parent, s, t, hspot, ht, links, k, hs, hk⟩
  · exact Or.inl (h.hasDirectory hdir)
  · exact Or.inr ⟨parent, s, t, hspot, hsame.trans ht, links, k, h.follows hs hk,
      h.hasDirectory hk⟩

theorem trans (h : d.KeepsWays e) (h' : e.KeepsWays f) : d.KeepsWays f :=
  ⟨h'.workingDirectory.trans h.workingDirectory,
    fun l hl => (h'.entries l (h.leadsOn hl)).trans (h.entries l hl)⟩

/-- A change where no path leads on. -/
theorem of_update (hw : e.workingDirectory = d.workingDirectory) {x : Option Entry}
    (hget : e.get? = Function.update d.get? l x) (hl : ¬ d.LeadsOn l) : d.KeepsWays e := by
  refine ⟨hw, fun k hk => ?_⟩
  have hkl : k ≠ l := fun h => hl (h ▸ hk)
  rw [hget, Function.update_of_ne hkl]

end KeepsWays

theorem SameTree.keepsWays (h : d.SameTree e) : d.KeepsWays e :=
  ⟨h.workingDirectory, fun l _ => by rw [h.entries]⟩

/-- The place of a name is the same wherever the ways are kept. -/
theorem place_of_keepsWays (h : d.KeepsWays e) (hplace : d.place p = .ok ⟨parent, .name s, slash⟩) :
    e.place p = .ok ⟨parent, .name s, slash⟩ := by
  obtain ⟨htext, before, hends, hidle, hup, hs, hdir⟩ := place_eq_name.mp hplace
  refine place_eq_name.mpr ⟨htext, before, ?_, hidle, hup, ?_, h.hasDirectory hdir⟩
  · rwa [h.workingDirectory]
  · rw [h.workingDirectory]
    exact follows_iff.mp (h.follows (follows_iff.mpr hs) hdir)

/-- A path names an entry of the directory that all its steps but the last lead to. -/
theorem names_iff : d.Names p l slash ↔ checkText p.text = .ok () ∧ ∃ before parent s,
    EndsIn (startOf d.workingDirectory p.text).2 before s slash ∧ IsName s ∧
      d.Follows maxLinks (startOf d.workingDirectory p.text).1 before parent ∧
      d.HasDirectory parent ∧ l = parent ++ [s] := by
  constructor
  · rintro ⟨parent, s, hplace, hsize, rfl⟩
    obtain ⟨htext, before, hends, hidle, hup, hs, hdir⟩ := place_eq_name.mp hplace
    exact ⟨htext, before, parent, s, hends, ⟨hidle, hup, hsize⟩, follows_iff.mpr hs, hdir, rfl⟩
  · rintro ⟨htext, before, parent, s, hends, hname, hs, hdir, rfl⟩
    exact ⟨parent, s, place_eq_name.mpr ⟨htext, before, hends, hname.moves, hname.ne_up,
      follows_iff.mp hs, hdir⟩, hname.short, rfl⟩

theorem locate_iff : d.locate p true = .ok k ↔ checkText p.text = .ok () ∧
    d.Follows maxLinks (startOf d.workingDirectory p.text).1
      (startOf d.workingDirectory p.text).2 k := by
  rw [locate, bind_eq_ok, follows_iff]
  constructor
  · rintro ⟨⟨⟩, htext, h⟩
    exact ⟨htext, h⟩
  · rintro ⟨htext, h⟩
    exact ⟨(), htext, h⟩

namespace Names

/-- A path goes on naming what it names where all directories are and all links that it may
cross. -/
theorem carry (hn : d.Names p l slash) (hw : e.workingDirectory = d.workingDirectory)
    (hp : ∀ s ∈ Path.moving p.split.2, K s) (hdirs : ∀ l, d.HasDirectory l → e.get? l = d.get? l)
    (hlinks : ∀ l s t, K s → d.LeadsOn (l ++ [s]) → d.get? (l ++ [s]) = some (.link t) →
      e.get? (l ++ [s]) = some (.link t) ∧ ∀ x ∈ Path.moving (Path.split ⟨t⟩).2, K x) :
    e.Names p l slash := by
  obtain ⟨hcheck, before, parent, s, hends, hname, hs, hdir, rfl⟩ := names_iff.mp hn
  refine names_iff.mpr ⟨hcheck, before, parent, s, hw ▸ hends, hname, ?_, ?_, rfl⟩
  · rw [hw]
    refine hs.carry hdir (fun x hx => hp x ?_) hdirs hlinks
    rw [← (startOf_moving d.workingDirectory p).2, moving_of_endsIn hends hname.moves]
    exact List.mem_append_left _ hx
  · obtain ⟨m, hm⟩ := hdir
    exact ⟨m, by rw [hdirs parent ⟨m, hm⟩, hm]⟩

theorem of_keepsWays (h : d.KeepsWays e) (hn : d.Names p l slash) : e.Names p l slash := by
  obtain ⟨parent, s, hplace, hsize, rfl⟩ := hn
  exact ⟨parent, s, place_of_keepsWays h hplace, hsize, rfl⟩

theorem inDirectory (hn : d.Names p l slash) :
    ∃ parent s, l = parent ++ [s] ∧ d.HasDirectory parent := by
  obtain ⟨-, -, parent, s, -, -, -, hdir, hl⟩ := names_iff.mp hn
  exact ⟨parent, s, hl, hdir⟩

/-- A path that names a file leads to one. -/
theorem isFile (hn : d.Names p l false) (hl : View.HasFile d.get? l) : d.isFile p = true := by
  obtain ⟨hcheck, before, parent, s, ⟨n, hsteps, hn0⟩, hname, hs, hdir, rfl⟩ := names_iff.mp hn
  obtain rfl : n = 0 := by simpa using hn0
  refine isFile_iff.mpr ⟨_, locate_iff.mpr ⟨hcheck, ?_⟩, hl⟩
  obtain ⟨c, i, hfile⟩ := hl
  rw [hsteps]
  exact hs.append fun links => .entry hdir hname hfile (by simp) (.done links _)

end Names

/-- A path that leads to a file goes through what it names: there is an entry, and no path to a
directory crosses it. -/
theorem names_of_isFile (hfile : d.isFile p = true)
    (hplace : d.place p = .ok ⟨parent, .name s, slash⟩) :
    d.Names p (parent ++ [s]) slash ∧ ¬ d.LeadsOn (parent ++ [s]) ∧
      d.get? (parent ++ [s]) ≠ none := by
  obtain ⟨k, hlocate, hk⟩ := isFile_iff.mp hfile
  obtain ⟨-, before, ⟨n, hsteps, -⟩, hidle, hup, hbefore, hdir⟩ := place_eq_name.mp hplace
  have hall := (locate_iff.mp hlocate).2
  rw [hsteps] at hall
  obtain ⟨m, hm, hlast⟩ := hall.split
  obtain rfl := hm.eq (follows_iff.mpr hbefore)
  have hnot : ¬ d.HasDirectory k := not_hasDirectory_of_hasFile hk
  generalize htail : s :: List.replicate n "" = tail at hlast
  cases hlast with
  | done => cases htail
  | idle hl hs more =>
    obtain ⟨rfl, -⟩ := List.cons_eq_cons.mp htail
    simp [hidle] at hs
  | up hl more => exact absurd (List.cons_eq_cons.mp htail).1 hup
  | entry hl hs hx hlink more =>
    obtain ⟨rfl, rfl⟩ := List.cons_eq_cons.mp htail
    obtain rfl := more.of_replicate
    refine ⟨⟨_, s, hplace, hs.short, rfl⟩, ?_, by simp [hx]⟩
    exact not_leadsOn_of_hasFile hk
  | link hl hs ht more =>
    obtain ⟨rfl, rfl⟩ := List.cons_eq_cons.mp htail
    refine ⟨⟨_, s, hplace, hs.short, rfl⟩, ?_, by simp [ht]⟩
    obtain ⟨j, hj, hrest⟩ := more.split
    obtain rfl := hrest.of_replicate
    rintro (⟨i, hi⟩ | ⟨parent', s', t', hspot, ht', links, k', hk', hdir'⟩)
    · simp [ht] at hi
    · obtain ⟨rfl, hs'⟩ := List.append_inj' hspot rfl
      obtain rfl : t' = _ := by simpa [ht] using ht'.symm
      exact hnot (hk'.unique hj ▸ hdir')

/-- What a path names is no file if nothing is there. -/
theorem isFile_of_absent (hn : d.Names p l slash) (hl : d.get? l = none) : d.isFile p = false := by
  by_contra hfile
  obtain ⟨parent, s, hplace, -, rfl⟩ := hn
  exact (names_of_isFile (by simpa using hfile) hplace).2.2 hl

end Disk

end ProtoForge.Files
