import ProtoForge.Proofs.Files.Opening

/-!
# Built disks

What making directories and writing files changes, location by location: a
directory appears where nothing was, and a file appears or holds other bytes.
Each change belongs to a path that was to be made or written, and this path
leads there ever after.
-/
namespace ProtoForge.Files

namespace Disk

/-- A directory lies where nothing was, and a path that was to be made leads to it. -/
structure MadeAt (made : Path → Prop) (d e : Disk) (l : Location) : Prop where
  absent : d.get? l = none
  directory : e.HasDirectory l
  leads : ∃ p, made p ∧ e.Leads p l

/-- Written bytes lie where nothing was or in a file that keeps its permissions, and a path that
was to be written leads there. -/
structure WrittenAt (written : Path → Prop) (d e : Disk) (l : Location) : Prop where
  bytes : ∃ b m, e.get? l = some (.file (.bytes b) m) ∧
    (d.get? l = none ∨ ∃ c, d.get? l = some (.file c m))
  leads : ∃ p, written p ∧ e.Leads p l

/-- A disk that has become another one by making directories and writing files. -/
structure Built (made written : Path → Prop) (d e : Disk) : Prop where
  grown : d.Grown e
  changes : ∀ l, e.get? l = d.get? l ∨ MadeAt made d e l ∨ WrittenAt written d e l

variable {made written : Path → Prop} {d e f : Disk} {l top : Location} {p : Path} {slash : Bool}
  {x : Entry}

theorem Grown.absent (h : d.Grown e) (hl : e.get? l = none) : d.get? l = none := by
  cases hx : d.get? l with
  | none => rfl
  | some x =>
    cases x with
    | link t => simp [h.links l t hx] at hl
    | file c m =>
      obtain ⟨c', m', hy⟩ := h.files l ⟨c, m, hx⟩
      simp [hy] at hl
    | directory m =>
      obtain ⟨m', hy⟩ := h.directories l ⟨m, hx⟩
      simp [hy] at hl

theorem MadeAt.leads_grown (h : MadeAt made d e l) (hgrown : e.Grown f) : MadeAt made d f l := by
  obtain ⟨p, hp, hleads⟩ := h.leads
  exact ⟨h.absent, hgrown.directories l h.directory, p, hp, hleads.grown hgrown⟩

namespace Built

theorem refl (d : Disk) : Built made written d d := ⟨.refl d, fun _ => Or.inl rfl⟩

/-- A file that is on the later disk was there before, was changed, or is new. -/
theorem changes_trans (h : Built made written d e) (g : Built made written e f) (l : Location) :
    f.get? l = d.get? l ∨ MadeAt made d f l ∨ WrittenAt written d f l := by
  rcases g.changes l with hsame | hmade | ⟨⟨b, m, hfile, hbefore⟩, hleads⟩
  · rcases h.changes l with hsame' | hmade | ⟨hbytes, p, hp, hleads⟩
    · exact Or.inl (hsame.trans hsame')
    · exact Or.inr (Or.inl (hmade.leads_grown g.grown))
    · refine Or.inr (Or.inr ⟨?_, p, hp, hleads.grown g.grown⟩)
      rwa [hsame]
  · exact Or.inr (Or.inl ⟨h.grown.absent hmade.absent, hmade.directory, hmade.leads⟩)
  · refine Or.inr (Or.inr ⟨⟨b, m, hfile, ?_⟩, hleads⟩)
    rcases hbefore with hnone | ⟨c, hc⟩
    · exact Or.inl (h.grown.absent hnone)
    · rcases h.changes l with hsame | hmade | ⟨⟨b', m', hfile', hbefore'⟩, -⟩
      · exact Or.inr ⟨c, hsame ▸ hc⟩
      · obtain ⟨n, hn⟩ := hmade.directory
        simp [hc] at hn
      · rw [hc] at hfile'
        obtain ⟨-, rfl⟩ : c = .bytes b' ∧ m = m' := by simpa using hfile'
        exact hbefore'

theorem trans (h : Built made written d e) (g : Built made written e f) :
    Built made written d f := ⟨h.grown.trans g.grown, changes_trans h g⟩

instance : IsPreorder Disk (Built made written) where
  refl := refl
  trans _ _ _ h g := h.trans g

/-- What was to be made or written may be described more widely. -/
theorem mono {made' written' : Path → Prop} (h : Built made written d e)
    (hmade : ∀ p, made p → made' p) (hwritten : ∀ p, written p → written' p) :
    Built made' written' d e := by
  refine ⟨h.grown, fun l => ?_⟩
  rcases h.changes l with hsame | ⟨hnone, hdir, p, hp, hleads⟩ | ⟨hbytes, p, hp, hleads⟩
  · exact Or.inl hsame
  · exact Or.inr (Or.inl ⟨hnone, hdir, p, hmade p hp, hleads⟩)
  · exact Or.inr (Or.inr ⟨hbytes, p, hwritten p hp, hleads⟩)

end Built

/-- No link lies below a location. -/
def LinkFreeBelow (d : Disk) (top : Location) : Prop :=
  ∀ l t, top <+: l → l ≠ top → d.get? l ≠ some (.link t)

/-- Building brings no links. -/
theorem Built.linkFreeBelow (h : Built made written d e)
    (hfree : d.LinkFreeBelow top) : e.LinkFreeBelow top := by
  intro l t hbelow hne ht
  rcases h.changes l with hsame | hmade | hwritten
  · exact hfree l t hbelow hne (hsame ▸ ht)
  · obtain ⟨m, hm⟩ := hmade.directory
    simp [hm] at ht
  · obtain ⟨b, m, hfile, -⟩ := hwritten.bytes
    simp [hfile] at ht

/-- A path that names a place opens the directory that has come to lie there. -/
theorem Names.opens (h : d.Names p l slash) (hgrown : d.Grown e) (hl : e.HasDirectory l) :
    e.Opens p l := by
  obtain ⟨-, before, parent, s, ⟨n, hsteps, -⟩, hs, hbefore, hdir, rfl⟩ := names_iff.mp h
  refine ⟨?_, hl⟩
  rw [hgrown.workingDirectory, hsteps]
  apply (hgrown.follows hbefore).append
  intro links
  obtain ⟨m, hm⟩ := hl
  refine .entry (hgrown.directories parent hdir) hs hm (by simp) ?_
  have hidle : ∀ t ∈ List.replicate n "", Path.isIdle t = true := by
    intro t ht
    rw [List.eq_of_mem_replicate ht]
    rfl
  simpa using (Follows.done links _).after_idle ⟨m, hm⟩ hidle

end Disk

open Disk

variable {made written : Path → Prop} {p : Path}

theorem built_makeDirectory (hp : made p) : Respects (Built made written) (makeDirectory p) := by
  refine respects_makeDirectory fun d l slash hn hnone hgrown => ⟨hgrown, fun k => ?_⟩
  by_cases hk : k = l
  · subst hk
    have hdir : (d.put k (.directory (d.inheritedMode k.dropLast))).HasDirectory k :=
      ⟨_, get?_put d k _ hn.ne_nil⟩
    exact Or.inr (Or.inl ⟨hnone, hdir, p, hp, ⟨_, (hn.opens hgrown hdir).follows⟩⟩)
  · left
    rw [get?_put_eq hn.ne_nil, Function.update_of_ne hk]

theorem built_makeDirectories (hp : ∀ q ∈ p.ancestors, made q) :
    Respects (Built made written) (makeDirectories p) :=
  respects_makeDirectories fun q hq _ => built_makeDirectory (hp q hq)

theorem built_writeFile (b : Bytes) (hp : written p) :
    Respects (Built made written) (writeFile p b) := by
  refine respects_writeFile fun d l htarget hne hgrown => ⟨hgrown, fun k => ?_⟩
  by_cases hk : k = l
  · subst hk
    have hput := get?_put d k (.file (.bytes b) (d.modeAt k)) hne
    obtain ⟨-, -, -, -, -, hfree⟩ := writeTarget_spot htarget
    obtain ⟨n, hn⟩ := writeTarget_leads htarget hgrown ⟨_, _, hput⟩
    refine Or.inr (Or.inr ⟨⟨b, _, hput, ?_⟩, p, hp, n, ?_⟩)
    · rcases hfree with hnone | ⟨c, m, hfile⟩
      · exact Or.inl hnone
      · exact Or.inr ⟨c, by rw [modeAt, hfile]⟩
    · rw [hgrown.workingDirectory]
      exact hn
  · left
    rw [get?_put_eq hne, Function.update_of_ne hk]

theorem respects_orFail {R : Disk → Disk → Prop} {α : Type} {a : FileAction α}
    (h : Respects R a) (f : Fault → Failure) : Respects R (a.orFail f) := by
  intro d
  have hd := h d
  rw [outcome_orFail]
  generalize outcome a d = r at hd ⊢
  rcases r with ⟨e | x, d'⟩
  · exact hd
  · exact hd

theorem respects_inspect {R : Disk → Disk → Prop} [IsPreorder Disk R] {α : Type}
    (f : Disk → Except Fault α) : Respects R (FileAction.inspect f) := by
  intro d
  rw [outcome_inspect]
  exact refl_of R d

end ProtoForge.Files
