import ProtoForge.Proofs.Files.Building
import ProtoForge.Proofs.Files.Likeness

/-!
# Building again

What made directories and wrote files does so again, with the same result, on
the disk that came of it: the directories are there, and the files are written
where they lie. Half way through, a file holds what it held in the end or what
it held at this point of the first time.
-/
namespace ProtoForge.Files

namespace Disk

variable {d d' e : Disk} {l k : Location} {p : Path} {slash : Bool} {c : Content} {base : Location}
  {text : String} {links : ℕ}

theorem isDirectory_iff :
    d.isDirectory p = true ↔ checkText p.text = .ok () ∧ ∃ l, d.Opens p l := by
  constructor
  · intro h
    rw [isDirectory, status] at h
    cases hlocate : d.locate p true with
    | error f => simp [hlocate, Except.toOption] at h
    | ok l =>
      cases hx : d.get? l with
      | none => simp [hlocate, hx, Except.toOption] at h
      | some x =>
        cases x with
        | file c m => simp [hlocate, hx, Except.toOption, Entry.isDirectory] at h
        | link t => simp [hlocate, hx, Except.toOption, Entry.isDirectory] at h
        | directory m => exact ⟨(locate_iff.mp hlocate).1, l, .of_locate hlocate ⟨m, hx⟩⟩
  · rintro ⟨htext, l, hl⟩
    exact hl.isDirectory htext

theorem read_eq_ok_iff :
    d.read p = .ok c ↔ ∃ l m, d.locate p true = .ok l ∧ d.get? l = some (.file c m) := by
  constructor
  · intro h
    obtain ⟨l, hlocate, c', m, hl⟩ := hasFile_of_read h
    simp only [read, status, hlocate, hl, ok_bind, pure_eq] at h
    obtain rfl := Except.ok.inj h
    exact ⟨l, m, hlocate, hl⟩
  · rintro ⟨l, m, hlocate, hl⟩
    simp only [read, status, hlocate, hl, ok_bind, pure_eq]

namespace Grown

theorem opens (h : d.Grown e) (hl : d.Opens p l) : e.Opens p l := by
  refine ⟨?_, h.directories l hl.directory⟩
  rw [h.workingDirectory]
  exact h.follows hl.follows

theorem isDirectory (h : d.Grown e) (hp : d.isDirectory p = true) : e.isDirectory p = true := by
  obtain ⟨htext, l, hl⟩ := isDirectory_iff.mp hp
  exact isDirectory_iff.mpr ⟨htext, l, h.opens hl⟩

theorem locate (h : d.Grown e) (hp : d.locate p true = .ok l) : e.locate p true = .ok l := by
  obtain ⟨htext, hfollows⟩ := locate_iff.mp hp
  rw [locate_iff, h.workingDirectory]
  exact ⟨htext, h.follows hfollows⟩

/-- A file is written where it was written before, as long as no directory or link is there. -/
theorem writeTarget (h : d.Grown e) (htarget : d.writeTarget links base text = .ok l)
    (hl : View.HasFile e.get? l) : e.writeTarget links base text = .ok l := by
  induction links using Nat.strong_induction_on generalizing base text with
  | _ links ih =>
    obtain ⟨parent, s, hplace, hshort, hlast⟩ := writeTarget_cases htarget
    have hplace' : e.placeFrom base text = .ok ⟨parent, .name s, false⟩ := by
      obtain ⟨htext, before, hends, hidle, hup, hbefore, hdir⟩ := placeFrom_eq_name.mp hplace
      exact placeFrom_eq_name.mpr ⟨htext, before, hends, hidle, hup,
        follows_iff.mp (h.follows (follows_iff.mpr hbefore)), h.directories parent hdir⟩
    rw [Disk.writeTarget.eq_def]
    simp only [hplace', ok_bind, throw_eq, pure_eq]
    rcases hlast with ⟨rfl, -⟩ | ⟨t, n, rfl, ht, hmore⟩
    · obtain ⟨c, m, hfile⟩ := hl
      simp [hfile, Nat.not_lt.mpr hshort]
    · have hmore' := ih n (Nat.lt_succ_self n) hmore
      simpa [h.links _ t ht, Nat.not_lt.mpr hshort] using hmore'

end Grown

/-- A file stays, with its permissions. -/
theorem Built.file {made written : Path → Prop} {m : ℕ} (h : Built made written d e)
    (hl : d.get? l = some (.file c m)) : ∃ c', e.get? l = some (.file c' m) := by
  rcases h.changes l with hsame | hmade | ⟨⟨b, m', hfile, hbefore⟩, -⟩
  · exact ⟨c, by rw [hsame, hl]⟩
  · have habsent := hmade.absent
    simp [hl] at habsent
  · rcases hbefore with hnone | ⟨c', hc'⟩
    · simp [hl] at hnone
    · obtain ⟨-, rfl⟩ : c = c' ∧ m = m' := by simpa [hl] using hc'
      exact ⟨.bytes b, hfile⟩

/-- An archive that is read in the end was there all the time. -/
theorem Built.read_archive {made written : Path → Prop} {entries : List ArchiveEntry}
    (h : Built made written d e) (hread : d.read p = .ok c)
    (he : e.read p = .ok (.archive entries)) : c = .archive entries := by
  obtain ⟨l, m, hlocate, hl⟩ := read_eq_ok_iff.mp hread
  obtain ⟨k, n, hlocate', hk⟩ := read_eq_ok_iff.mp he
  obtain rfl : l = k := Except.ok.inj ((h.grown.locate hlocate).symm.trans hlocate')
  rcases h.changes l with hsame | hmade | ⟨⟨b, m', hfile, -⟩, -⟩
  · obtain ⟨rfl, -⟩ : c = .archive entries ∧ m = n := by simpa [hsame, hl] using hk
    rfl
  · have habsent := hmade.absent
    simp [hl] at habsent
  · simp [hk] at hfile

/-- Anything that making directories and writing files leads to. -/
abbrev BuiltUp : Disk → Disk → Prop := Built (fun _ => True) (fun _ => True)

/-- A disk on which what led from one disk to another is done once more: it has the shape of the
latter, and every file holds what it holds on one of them. -/
structure Midway (e d d' : Disk) : Prop where
  ahead : d.BuiltUp e
  alike : e.Alike (fun _ => .bytes []) d'
  proper : d'.IsProper
  entries : ∀ l, d'.get? l = e.get? l ∨ d'.get? l = d.get? l

namespace Midway

theorem start (h : d.BuiltUp e) (he : e.IsProper) : Midway e d e :=
  ⟨h, ⟨rfl, fun _ => rfl⟩, he, fun _ => Or.inl rfl⟩

/-- In the end everything is as it was. -/
theorem sameTree (h : Midway e e d') : e.SameTree d' := by
  refine ⟨h.alike.workingDirectory, ?_⟩
  funext l
  exact (h.entries l).elim id id

theorem grown_of_ahead (h : Midway e d d') {d₁ : Disk} (hahead : d₁.BuiltUp e) : d₁.Grown d' :=
  hahead.grown.trans (h.alike.grown h.proper)

theorem grown (h : Midway e d d') : d.Grown d' := h.grown_of_ahead h.ahead

/-- A file that can be read holds what it holds on one of the two disks. -/
theorem read (h : Midway e d d') (hread : d.read p = .ok c) :
    ∃ c', d'.read p = .ok c' ∧ (c' = c ∨ e.read p = .ok c') := by
  obtain ⟨l, m, hlocate, hl⟩ := read_eq_ok_iff.mp hread
  obtain ⟨c₁, hc₁⟩ := h.ahead.file hl
  obtain ⟨c', hc', -⟩ := h.alike.eq_file hc₁
  refine ⟨c', read_eq_ok_iff.mpr ⟨l, m, h.grown.locate hlocate, hc'⟩, ?_⟩
  rcases h.entries l with heq | heq
  · right
    exact read_eq_ok_iff.mpr ⟨l, m, h.ahead.grown.locate hlocate, heq ▸ hc'⟩
  · left
    rw [heq, hl] at hc'
    simpa using hc'.symm

end Midway

/-- Where a directory is, none can be made. -/
theorem newEntry_ne_ok (h : d.isDirectory p = true) : d.newEntry p ≠ .ok l := by
  intro hnew
  obtain ⟨⟨slash, hn⟩, hnone⟩ := newEntry_eq_ok_iff.mp hnew
  obtain ⟨-, before, parent, s, ⟨n, hsteps, -⟩, hs, hbefore, -, rfl⟩ := names_iff.mp hn
  obtain ⟨-, k, hk⟩ := isDirectory_iff.mp h
  have hall := hk.follows
  rw [hsteps] at hall
  obtain ⟨m, hm, hlast⟩ := hall.split
  obtain rfl := hm.eq hbefore
  cases hlast with
  | idle hl hs' more => simp [hs.moves] at hs'
  | up hl more => exact hs.ne_up rfl
  | entry hl hs' hx hlink more => simp [hnone] at hx
  | link hl hs' ht more => simp [hnone] at ht

end Disk

open Disk

variable {d d' e : Disk} {p : Path} {u : Unit}

theorem outcome_ensureDirectory (p : Path) (d : Disk) :
    outcome (ensureDirectory p) d =
      match outcome (makeDirectory p) d with
      | (.ok _, d') => (.ok (), d')
      | (.error f, d') => if d'.isDirectory p then (.ok (), d') else (.error f, d') := by
  rw [ensureDirectory, outcome_tryCatch]
  rcases outcome (makeDirectory p) d with ⟨f | u, d'⟩
  · dsimp only
    rw [outcome_bind, outcome_get]
    dsimp only
    split_ifs <;> rfl
  · rfl

theorem isDirectory_of_ensureDirectory (h : outcome (ensureDirectory p) d = (.ok u, d')) :
    d'.isDirectory p = true := by
  have hgrows := grows_makeDirectory p d
  rw [outcome_ensureDirectory, outcome_makeDirectory] at h
  rw [outcome_makeDirectory] at hgrows
  cases hnew : d.newEntry p with
  | error f =>
    simp only [hnew] at h
    split_ifs at h with hdir
    · obtain ⟨-, rfl⟩ := Prod.mk.inj h
      exact hdir
    · cases h
  | ok l =>
    simp only [hnew] at h hgrows
    obtain ⟨-, rfl⟩ := Prod.mk.inj h
    obtain ⟨⟨slash, hn⟩, -⟩ := newEntry_eq_ok_iff.mp hnew
    have hl : (d.put l (.directory (d.inheritedMode l.dropLast))).HasDirectory l :=
      ⟨_, get?_put d l _ hn.ne_nil⟩
    exact isDirectory_iff.mpr ⟨(names_iff.mp hn).1, l, hn.opens hgrows hl⟩

theorem ensureDirectory_again (h : d.isDirectory p = true) :
    outcome (ensureDirectory p) d = (.ok (), d) := by
  rw [outcome_ensureDirectory, outcome_makeDirectory]
  cases hnew : d.newEntry p with
  | error f => simp [h]
  | ok l => exact absurd hnew (newEntry_ne_ok h)

theorem isDirectory_of_makeDirectories (h : outcome (makeDirectories p) d = (.ok u, d')) :
    p.text = "" ∨ d'.isDirectory p = true := by
  rw [makeDirectories, Path.ancestors_eq, makeDirectoriesFrom] at h
  split_ifs at h with hempty
  · exact Or.inl (String.isEmpty_iff.mp hempty)
  right
  rw [outcome_tryCatch] at h
  cases hensure : outcome (ensureDirectory p) d with
  | mk result d₁ =>
    rw [hensure] at h
    cases result with
    | ok v =>
      obtain ⟨-, rfl⟩ := Prod.mk.inj h
      exact isDirectory_of_ensureDirectory hensure
    | error f =>
      dsimp only at h
      split_ifs at h with hmissing
      · obtain ⟨v, d₂, -, hlast⟩ := outcome_bind_eq_ok.mp h
        exact isDirectory_of_ensureDirectory hlast
      · cases h

theorem makeDirectories_again (h : p.text = "" ∨ d.isDirectory p = true) :
    outcome (makeDirectories p) d = (.ok (), d) := by
  rw [makeDirectories, Path.ancestors_eq, makeDirectoriesFrom]
  split_ifs with hempty
  · rfl
  · have hdir := h.resolve_left fun hp => hempty (String.isEmpty_iff.mpr hp)
    rw [outcome_tryCatch, ensureDirectory_again hdir]

/-- An action that builds on a disk, and once more with the same result midway to the end. -/
structure Rebuilds {ε α : Type} (e : Disk) (x : ExceptT ε (StateM Disk) α) : Prop where
  builds : Respects BuiltUp x
  again : ∀ {d d₁ d' : Disk} {a : α}, Midway e d d' → outcome x d = (.ok a, d₁) → d₁.BuiltUp e →
    ∃ d₁', outcome x d' = (.ok a, d₁') ∧ Midway e d₁ d₁'

namespace Rebuilds

variable {ε α β : Type} {x : ExceptT ε (StateM Disk) α}

theorem pure (a : α) : Rebuilds e (Pure.pure a : ExceptT ε (StateM Disk) α) where
  builds := .pure a
  again h hout _ := by
    obtain ⟨hresult, rfl⟩ := Prod.mk.inj hout
    obtain rfl := Except.ok.inj hresult
    exact ⟨_, rfl, h⟩

theorem bind {k : α → ExceptT ε (StateM Disk) β} (hx : Rebuilds e x) (hk : ∀ a, Rebuilds e (k a)) :
    Rebuilds e (x >>= k) where
  builds := hx.builds.bind fun a => (hk a).builds
  again h hout hahead := by
    obtain ⟨a, d₂, hfirst, hrest⟩ := outcome_bind_eq_ok.mp hout
    have hstep := (hk a).builds d₂
    rw [hrest] at hstep
    obtain ⟨d₂', hfirst', h₂⟩ := hx.again h hfirst (hstep.trans hahead)
    obtain ⟨d₁', hrest', h₁⟩ := (hk a).again h₂ hrest hahead
    exact ⟨d₁', outcome_bind_eq_ok.mpr ⟨a, d₂', hfirst', hrest'⟩, h₁⟩

theorem foldlM {f : β → α → ExceptT ε (StateM Disk) β} (xs : List α)
    (hf : ∀ a ∈ xs, ∀ b, Rebuilds e (f b a)) (b : β) : Rebuilds e (xs.foldlM f b) := by
  induction xs generalizing b with
  | nil => exact pure b
  | cons a xs ih =>
    rw [List.foldlM_cons]
    apply bind (hf a List.mem_cons_self b)
    intro b'
    exact ih (fun a' ha' => hf a' (List.mem_cons_of_mem a ha')) b'

theorem orFail {a : FileAction α} (h : Rebuilds e a) (f : Fault → Failure) :
    Rebuilds e (a.orFail f) where
  builds := respects_orFail h.builds f
  again hmid hout hahead := by
    rw [outcome_orFail_eq_ok] at hout
    obtain ⟨d₁', hout', h₁⟩ := h.again hmid hout hahead
    exact ⟨d₁', outcome_orFail_eq_ok.mpr hout', h₁⟩

theorem inspect {f : Disk → Except Fault α}
    (h : ∀ d d' a, Midway e d d' → f d = .ok a → f d' = .ok a) :
    Rebuilds e (FileAction.inspect f) where
  builds := respects_inspect f
  again {d d₁ d' a} hmid hout _ := by
    rw [outcome_inspect] at hout
    obtain ⟨hresult, rfl⟩ := Prod.mk.inj hout
    exact ⟨d', by rw [outcome_inspect, h d d' a hmid hresult], hmid⟩

theorem makeDirectories (p : Path) : Rebuilds e (makeDirectories p) where
  builds := built_makeDirectories fun _ _ => trivial
  again {d d₁ d' u} h hout hahead := by
    have hgrown := h.grown_of_ahead hahead
    have hmakes : Respects (Built (fun _ => True) (fun _ => False)) (Files.makeDirectories p) :=
      built_makeDirectories fun _ _ => trivial
    have hmade := hmakes d
    rw [hout] at hmade
    refine ⟨d', makeDirectories_again ((isDirectory_of_makeDirectories hout).imp id hgrown.isDirectory),
      hahead, h.alike, h.proper, fun l => ?_⟩
    rcases h.entries l with heq | heq
    · exact Or.inl heq
    rcases hmade.changes l with hsame | hnew | ⟨-, q, hq, -⟩
    · exact Or.inr (by rw [heq, hsame])
    · -- what was made first was there when it was made again
      obtain ⟨m, hm⟩ := hgrown.directories l hnew.directory
      rw [heq, hnew.absent] at hm
      cases hm
    · exact hq.elim

theorem writeFile (p : Path) (b : Bytes) : Rebuilds e (writeFile p b) where
  builds := built_writeFile b trivial
  again {d d₁ d' u} h hout hahead := by
    obtain ⟨l, htarget, hne, rfl⟩ := writeFile_eq_ok hout
    -- the file is there with the permissions that it got the first time
    obtain ⟨c, hc⟩ := hahead.file (get?_put d l (.file (.bytes b) (d.modeAt l)) hne)
    obtain ⟨c', hc', -⟩ := h.alike.eq_file hc
    have htarget' := h.grown.writeTarget htarget ⟨c', _, hc'⟩
    have hmode : d'.modeAt l = d.modeAt l := by rw [modeAt, hc']
    rw [← h.grown.workingDirectory] at htarget'
    have hgrows := grows_writeFile p b d'
    rw [outcome_writeFile] at hgrows ⊢
    simp only [htarget', hmode] at hgrows ⊢
    refine ⟨_, rfl, hahead, ⟨h.alike.workingDirectory, fun k => ?_⟩, hgrows.proper h.proper, fun k => ?_⟩
    · by_cases hk : k = l
      · subst hk
        rw [get?_put d' k _ hne, hc]
        rfl
      · rw [get?_put_eq hne, Function.update_of_ne hk, h.alike.entries]
    · by_cases hk : k = l
      · subst hk
        right
        rw [get?_put d' k _ hne, get?_put d k _ hne]
      · rw [get?_put_eq hne, get?_put_eq hne, Function.update_of_ne hk, Function.update_of_ne hk]
        exact h.entries k

end Rebuilds

end ProtoForge.Files
