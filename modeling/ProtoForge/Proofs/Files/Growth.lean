import ProtoForge.Proofs.Files.Walks
import ProtoForge.Failure

/-!
# Growing disks

Making directories and writing files adds entries and changes what files hold,
but takes nothing away. So paths go on leading where they led.
-/
namespace ProtoForge.Files

namespace Disk

/-- A disk that has at least what another one has; files may hold something else. -/
structure Grown (d e : Disk) : Prop where
  workingDirectory : e.workingDirectory = d.workingDirectory
  directories : ∀ l, d.HasDirectory l → e.HasDirectory l
  files : ∀ l, View.HasFile d.get? l → View.HasFile e.get? l
  links : ∀ l t, d.get? l = some (.link t) → e.get? l = some (.link t)
  proper : d.IsProper → e.IsProper

variable {d e f : Disk} {links more : ℕ} {l k m parent base : Location} {x : Entry} {p : Path}
  {s text : String} {xs ys steps : List String} {slash : Bool}

namespace Grown

theorem refl (d : Disk) : d.Grown d :=
  ⟨rfl, fun _ h => h, fun _ h => h, fun _ _ h => h, fun h => h⟩

theorem trans (h : d.Grown e) (g : e.Grown f) : d.Grown f where
  workingDirectory := g.workingDirectory.trans h.workingDirectory
  directories l hl := g.directories l (h.directories l hl)
  files l hl := g.files l (h.files l hl)
  links l t ht := g.links l t (h.links l t ht)
  proper hd := g.proper (h.proper hd)

instance : IsPreorder Disk Grown where
  refl := refl
  trans _ _ _ h g := h.trans g

/-- What is no link becomes no link. -/
theorem entry (h : d.Grown e) (hx : d.get? l = some x) (hlink : ∀ t, x ≠ .link t) :
    ∃ y, e.get? l = some y ∧ ∀ t, y ≠ .link t := by
  cases x with
  | link t => exact absurd rfl (hlink t)
  | file c m =>
    obtain ⟨c', m', hy⟩ := h.files l ⟨c, m, hx⟩
    exact ⟨_, hy, by simp⟩
  | directory m =>
    obtain ⟨m', hy⟩ := h.directories l ⟨m, hx⟩
    exact ⟨_, hy, by simp⟩

theorem follows (h : d.Grown e) (hs : d.Follows links l steps k) : e.Follows links l steps k := by
  induction hs with
  | done links l => exact .done links l
  | idle hl hs more ih => exact .idle (h.directories _ hl) hs ih
  | up hl more ih => exact .up (h.directories _ hl) ih
  | entry hl hs hx hlink more ih =>
    obtain ⟨y, hy, hlink'⟩ := h.entry hx hlink
    exact .entry (h.directories _ hl) hs hy hlink' ih
  | link hl hs ht more ih => exact .link (h.directories _ hl) hs (h.links _ _ ht) ih

end Grown

theorem Leads.grown (h : d.Leads p l) (hgrown : d.Grown e) : e.Leads p l := by
  obtain ⟨n, hn⟩ := h
  rw [Leads, hgrown.workingDirectory]
  exact ⟨n, hgrown.follows hn⟩

/-- What is put under legal names is listed once. -/
theorem IsProper.put (hd : d.IsProper) (hrooted : (d.put l x).Rooted)
    (hl : ∀ s ∈ l, IsFileName s) : (d.put l x).IsProper := by
  refine ⟨?_, hrooted, fun y hy => ?_⟩
  · rw [Disk.put, List.map_append, List.nodup_append]
    refine ⟨(hd.distinct.sublist (List.filter_sublist.map _)), List.nodup_singleton _, ?_⟩
    intro j hj j' hj'
    obtain ⟨y, hy, rfl⟩ := List.mem_map.mp hj
    obtain rfl : j' = l := by simpa using hj'
    simpa using (List.mem_filter.mp hy).2
  · rcases List.mem_append.mp hy with hy | hy
    · exact hd.legal y (List.mem_filter.mp hy).1
    · obtain rfl := List.mem_singleton.mp hy
      exact hl

/-- Something that is put into a directory under a legal name, unless it takes the place of a
directory or link. -/
theorem grown_put (hparent : d.HasDirectory parent) (hs : IsFileName s)
    (hfree : d.get? (parent ++ [s]) = none ∨
      View.HasFile d.get? (parent ++ [s]) ∧ ∃ c m, x = .file c m) :
    d.Grown (d.put (parent ++ [s]) x) := by
  have hnot : ¬ d.HasDirectory (parent ++ [s]) := by
    rcases hfree with hnone | ⟨hfile, -⟩
    · exact not_hasDirectory_of_absent hnone
    · exact not_hasDirectory_of_hasFile hfile
  have hget := get?_put_eq (d := d) (l := parent ++ [s]) (by simp) x
  refine ⟨rfl, fun l hl => ?_, fun l hl => ?_, fun l t ht => ?_, fun hd => ?_⟩
  · obtain ⟨n, hn⟩ := (keeps_put (by simp) hnot x).directories l hl
    exact ⟨n, hn⟩
  · by_cases hl' : l = parent ++ [s]
    · subst hl'
      rcases hfree with hnone | ⟨-, c, m, rfl⟩
      · obtain ⟨c, m, hfile⟩ := hl
        simp [hnone] at hfile
      · exact ⟨c, m, by rw [hget, Function.update_self]⟩
    · obtain ⟨c, m, hfile⟩ := hl
      exact ⟨c, m, by rw [hget, Function.update_of_ne hl', hfile]⟩
  · have hl' : l ≠ parent ++ [s] := by
      rintro rfl
      rcases hfree with hnone | ⟨⟨c, m, hfile⟩, -⟩
      · simp [hnone] at ht
      · simp [hfile] at ht
    rw [hget, Function.update_of_ne hl', ht]
  · refine hd.put (hd.rooted.put hparent hnot x) fun t ht => ?_
    rcases List.mem_append.mp ht with ht | ht
    · obtain ⟨n, hn⟩ := hparent
      exact hd.isFileName (by simp [hn]) t ht
    · rw [List.mem_singleton.mp ht]
      exact hs

/-- A directory that gets other permissions. -/
theorem grown_put_directory (hl : d.HasDirectory l) (hne : l ≠ []) (m : ℕ) :
    d.Grown (d.put l (.directory m)) := by
  have hget := get?_put_eq (d := d) hne (.directory m)
  have hother : ∀ {k y}, d.get? k = some y → y.isDirectory = false →
      (d.put l (.directory m)).get? k = some y := by
    intro k y hy hdir
    have hk : k ≠ l := by
      rintro rfl
      obtain ⟨n, hn⟩ := hl
      obtain rfl : Entry.directory n = y := by simpa [hn] using hy
      cases hdir
    rw [hget, Function.update_of_ne hk, hy]
  have hdirs : ∀ k, d.HasDirectory k → (d.put l (.directory m)).HasDirectory k := by
    intro k hk
    by_cases hkl : k = l
    · exact ⟨m, by rw [hget, hkl, Function.update_self]⟩
    · obtain ⟨n, hn⟩ := hk
      exact ⟨n, by rw [hget, Function.update_of_ne hkl, hn]⟩
  refine ⟨rfl, hdirs, fun k ⟨c, n, hfile⟩ => ⟨c, n, hother hfile rfl⟩,
    fun k t ht => hother ht rfl, fun hd => hd.put (fun k s hks => hdirs k ?_) ?_⟩
  · by_cases heq : k ++ [s] = l
    · subst heq
      exact hd.rooted k s (by obtain ⟨n, hn⟩ := hl; simp [hn])
    · rw [hget, Function.update_of_ne heq] at hks
      exact hd.rooted k s hks
  · obtain ⟨n, hn⟩ := hl
    exact hd.isFileName (by simp [hn])

/-- A place with a name lies in a directory, and the name is one that entries can have. -/
theorem placeFrom_name (h : d.placeFrom base text = .ok ⟨parent, .name s, slash⟩) :
    d.HasDirectory parent ∧ Path.IsOrdinary s := by
  obtain ⟨-, before, ⟨n, hsteps, -⟩, hidle, hup, -, hdir⟩ := placeFrom_eq_name.mp h
  exact ⟨hdir, hidle, hup, not_mem_of_mem_startOf (by rw [hsteps]; simp)⟩

theorem Names.spot (h : d.Names p l slash) :
    ∃ parent s, l = parent ++ [s] ∧ d.HasDirectory parent ∧ IsFileName s := by
  obtain ⟨parent, s, hplace, hshort, rfl⟩ := h
  obtain ⟨hdir, hs⟩ := placeFrom_name hplace
  exact ⟨parent, s, rfl, hdir, hs, hshort⟩

/-- Steps of two parts use up the links of both. -/
theorem Follows.append_add (h : d.Follows links l xs m) (h' : d.Follows more m ys k) :
    d.Follows (links + more) l (xs ++ ys) k := by
  induction h with
  | done links l => exact h'.mono (Nat.le_add_left more links)
  | idle hl hs _ ih => exact .idle hl hs (ih h')
  | up hl _ ih => exact .up hl (ih h')
  | entry hl hs hx hlink _ ih => exact .entry hl hs hx hlink (ih h')
  | @link links l s rest k t hl hs ht _ ih =>
    have hmore := ih h'
    rw [List.append_assoc] at hmore
    rw [Nat.succ_add]
    exact .link hl hs ht hmore

/-- A file is written where a path names nothing or a file; a link there is followed. -/
theorem writeTarget_cases (h : d.writeTarget links base text = .ok l) :
    ∃ parent s, d.placeFrom base text = .ok ⟨parent, .name s, false⟩ ∧
      Bytes.textSize s ≤ maxName ∧
      (l = parent ++ [s] ∧ (d.get? l = none ∨ View.HasFile d.get? l) ∨
        ∃ t n, links = n + 1 ∧ d.get? (parent ++ [s]) = some (.link t) ∧
          d.writeTarget n parent t = .ok l) := by
  rw [writeTarget.eq_def] at h
  simp only [throw_eq, pure_eq, error_bind] at h
  obtain ⟨⟨parent, last, slash⟩, hplace, h⟩ := bind_eq_ok.mp h
  cases last with
  | here => cases h
  | up => cases h
  | root => cases h
  | name s =>
    dsimp only at h
    split_ifs at h with hslash hlong
    obtain rfl : slash = false := by simpa using hslash
    refine ⟨parent, s, hplace, Nat.not_lt.mp hlong, ?_⟩
    cases hx : d.get? (parent ++ [s]) with
    | none =>
      rw [hx] at h
      obtain rfl := Except.ok.inj h
      exact Or.inl ⟨rfl, Or.inl hx⟩
    | some x =>
      rw [hx] at h
      cases x with
      | directory m => cases h
      | file c m =>
        obtain rfl := Except.ok.inj h
        exact Or.inl ⟨rfl, Or.inr ⟨c, m, hx⟩⟩
      | link t =>
        cases links with
        | zero => cases h
        | succ n => exact Or.inr ⟨t, n, rfl, rfl, h⟩

/-- What is written lies in a directory, under a legal name, where nothing or a file was. -/
theorem writeTarget_spot (h : d.writeTarget links base text = .ok l) :
    ∃ parent s, l = parent ++ [s] ∧ d.HasDirectory parent ∧ IsFileName s ∧
      (d.get? l = none ∨ View.HasFile d.get? l) := by
  induction links using Nat.strong_induction_on generalizing base text with
  | _ links ih =>
    obtain ⟨parent, s, hplace, hshort, ⟨rfl, hfree⟩ | ⟨t, n, rfl, -, hmore⟩⟩ := writeTarget_cases h
    · obtain ⟨hdir, hs⟩ := placeFrom_name hplace
      exact ⟨parent, s, rfl, hdir, ⟨hs, hshort⟩, hfree⟩
    · exact ih n (Nat.lt_succ_self n) hmore

theorem writeTarget_ne_nil (h : d.writeTarget links base text = .ok l) : l ≠ [] := by
  obtain ⟨parent, s, rfl, -⟩ := writeTarget_spot h
  simp

/-- The path leads to what was written, on every disk that has grown since. -/
theorem writeTarget_leads (h : d.writeTarget links base text = .ok l) (hgrown : d.Grown e)
    (hl : View.HasFile e.get? l) :
    ∃ n, e.Follows n (startOf base text).1 (startOf base text).2 l := by
  induction links using Nat.strong_induction_on generalizing base text with
  | _ links ih =>
    obtain ⟨parent, s, hplace, hshort, hlast⟩ := writeTarget_cases h
    obtain ⟨hdir, hs⟩ := placeFrom_name hplace
    obtain ⟨-, before, ⟨i, hsteps, hi⟩, -, -, hbefore, -⟩ := placeFrom_eq_name.mp hplace
    obtain rfl : i = 0 := by simpa using hi
    have hbefore' := hgrown.follows (follows_iff.mpr hbefore)
    have hdir' := hgrown.directories parent hdir
    have hname : IsName s := ⟨hs.moves, hs.ne_up, hshort⟩
    rw [hsteps]
    rcases hlast with ⟨rfl, -⟩ | ⟨t, n, rfl, ht, hmore⟩
    · obtain ⟨c, m, hfile⟩ := hl
      have hstep : e.Follows 0 parent [s] (parent ++ [s]) :=
        .entry hdir' hname hfile (by simp) (.done 0 _)
      exact ⟨_, hbefore'.append_add hstep⟩
    · obtain ⟨j, hj⟩ := ih n (Nat.lt_succ_self n) hmore
      have hstep : e.Follows (j + 1) parent [s] l :=
        .link hdir' hname (hgrown.links _ t ht) (by rwa [List.append_nil])
      exact ⟨_, hbefore'.append_add hstep⟩

end Disk

open Disk

/-- Whether it fails or not, an action leaves a disk that has at least what was there. -/
def Grows {ε α : Type} (x : ExceptT ε (StateM Disk) α) : Prop :=
  ∀ d : Disk, d.Grown (outcome x d).2

namespace Grows

variable {ε α : Type} {x : ExceptT ε (StateM Disk) α}

theorem respects (hx : Grows x) : Respects Disk.Grown x := hx

theorem of_outcome {d e : Disk} {r : Except ε α} (hx : Grows x) (h : outcome x d = (r, e)) :
    d.Grown e :=
  hx.respects.of_outcome h

end Grows

variable {d : Disk} {p : Path} {b : Bytes}

theorem grows_makeDirectory (p : Path) : Grows (makeDirectory p) := by
  intro d
  rw [outcome_makeDirectory]
  cases hnew : d.newEntry p with
  | error e => exact .refl d
  | ok l =>
    obtain ⟨⟨slash, hn⟩, hnone⟩ := newEntry_eq_ok_iff.mp hnew
    obtain ⟨parent, s, rfl, hdir, hs⟩ := hn.spot
    exact grown_put hdir hs (Or.inl hnone)

/-- Making a directory respects what putting one into a free place respects. -/
theorem respects_makeDirectory {R : Disk → Disk → Prop} [IsPreorder Disk R]
    (h : ∀ (d : Disk) (l : Location) (slash : Bool), d.Names p l slash → d.get? l = none →
      d.Grown (d.put l (.directory (d.inheritedMode l.dropLast))) →
        R d (d.put l (.directory (d.inheritedMode l.dropLast)))) :
    Respects R (makeDirectory p) := by
  intro d
  have hgrows := grows_makeDirectory p d
  rw [outcome_makeDirectory] at hgrows ⊢
  cases hnew : d.newEntry p with
  | error e => exact refl_of R d
  | ok l =>
    rw [hnew] at hgrows
    obtain ⟨⟨slash, hn⟩, hnone⟩ := newEntry_eq_ok_iff.mp hnew
    exact h d l slash hn hnone hgrows

theorem respects_ensureDirectory {R : Disk → Disk → Prop} [IsPreorder Disk R]
    (h : Respects R (makeDirectory p)) : Respects R (ensureDirectory p) := by
  refine .tryCatch h fun e => .bind .get fun d => ?_
  split_ifs
  · exact .pure _
  · exact .throw e

theorem respects_makeDirectoriesFrom {R : Disk → Disk → Prop} [IsPreorder Disk R] (ps : List Path)
    (h : ∀ p ∈ ps, p.text ≠ "" → Respects R (makeDirectory p)) :
    Respects R (makeDirectoriesFrom ps) := by
  induction ps with
  | nil => exact .pure _
  | cons p parents ih =>
    rw [makeDirectoriesFrom]
    split_ifs with hempty
    · exact .pure _
    · have hp : Respects R (ensureDirectory p) :=
        respects_ensureDirectory (h p List.mem_cons_self fun heq => hempty (String.isEmpty_iff.mpr heq))
      refine .tryCatch hp fun e => ?_
      split_ifs
      · exact .bind (ih fun q hq => h q (List.mem_cons_of_mem p hq)) fun _ => hp
      · exact .throw e

/-- Directories with their parents are made one at a time. -/
theorem respects_makeDirectories {R : Disk → Disk → Prop} [IsPreorder Disk R]
    (h : ∀ q ∈ p.ancestors, q.text ≠ "" → Respects R (makeDirectory q)) :
    Respects R (makeDirectories p) :=
  respects_makeDirectoriesFrom p.ancestors h

theorem grows_makeDirectories (p : Path) : Grows (makeDirectories p) :=
  respects_makeDirectories fun q _ _ => grows_makeDirectory q

/-- The permissions of a file after it has been written. -/
def Disk.modeAt (d : Disk) (l : Location) : ℕ :=
  match d.get? l with
  | some (.file _ m) => m
  | _ => fileMode

theorem outcome_writeFile (p : Path) (b : Bytes) (d : Disk) :
    outcome (writeFile p b) d =
      match d.writeTarget maxLinks d.workingDirectory p.text with
      | .ok l => (.ok (), d.put l (.file (.bytes b) (d.modeAt l)))
      | .error e => (.error e, d) := by
  rw [writeFile, outcome_inspect_bind]
  cases d.writeTarget maxLinks d.workingDirectory p.text <;> rfl

theorem grows_writeFile (p : Path) (b : Bytes) : Grows (writeFile p b) := by
  intro d
  rw [outcome_writeFile]
  cases htarget : d.writeTarget maxLinks d.workingDirectory p.text with
  | error e => exact .refl d
  | ok l =>
    obtain ⟨parent, s, rfl, hdir, hs, hfree⟩ := writeTarget_spot htarget
    exact grown_put hdir hs (hfree.imp id fun hfile => ⟨hfile, _, _, rfl⟩)

/-- Writing a file respects what putting one where it is written respects. -/
theorem respects_writeFile {R : Disk → Disk → Prop} [IsPreorder Disk R]
    (h : ∀ (d : Disk) (l : Location), d.writeTarget maxLinks d.workingDirectory p.text = .ok l →
      l ≠ [] → d.Grown (d.put l (.file (.bytes b) (d.modeAt l))) →
        R d (d.put l (.file (.bytes b) (d.modeAt l)))) :
    Respects R (writeFile p b) := by
  intro d
  have hgrows := grows_writeFile p b d
  rw [outcome_writeFile] at hgrows ⊢
  cases htarget : d.writeTarget maxLinks d.workingDirectory p.text with
  | error e => exact refl_of R d
  | ok l =>
    rw [htarget] at hgrows
    exact h d l htarget (writeTarget_ne_nil htarget) hgrows

/-- What writing a file has put where. -/
theorem writeFile_eq_ok {u : Unit} {d' : Disk} (h : outcome (writeFile p b) d = (.ok u, d')) :
    ∃ l, d.writeTarget maxLinks d.workingDirectory p.text = .ok l ∧ l ≠ [] ∧
      d' = d.put l (.file (.bytes b) (d.modeAt l)) := by
  rw [outcome_writeFile] at h
  cases htarget : d.writeTarget maxLinks d.workingDirectory p.text with
  | error f =>
    rw [htarget] at h
    cases h
  | ok l =>
    rw [htarget] at h
    obtain ⟨-, rfl⟩ := Prod.mk.inj h
    exact ⟨l, rfl, writeTarget_ne_nil htarget, rfl⟩

/-- A file that was written is where its path leads. -/
theorem writeFile_leads {d' e : Disk} (h : outcome (writeFile p b) d = (.ok (), d'))
    (hgrown : d'.Grown e) :
    ∃ l, e.Leads p l ∧ View.HasFile e.get? l := by
  have hgrown' := ((grows_writeFile p b).of_outcome h).trans hgrown
  obtain ⟨l, htarget, hne, rfl⟩ := writeFile_eq_ok h
  have hfile : View.HasFile e.get? l := hgrown.files l ⟨_, _, get?_put d l _ hne⟩
  refine ⟨l, ?_, hfile⟩
  rw [Leads, hgrown'.workingDirectory]
  exact writeTarget_leads htarget hgrown' hfile

end ProtoForge.Files
