import ProtoForge.Proofs.Files.Components
import ProtoForge.Proofs.Output.CommitSteps

/-!
# Placing staged files among links

One step of a commit on a disk with links. It leaves what can be taken back,
unless it puts a file in place of a link that does not lead to a file: such a
link is not put aside, as only files are.
-/
namespace ProtoForge.Output

open Files

/-- Placing a staged file succeeds and takes away the link that its target names, as the link does
not lead to a file. -/
def Pending.LosesLink (p : Pending) (s : CommitState) : Prop :=
  ∃ s₁ s₂ l t, outcome (makeAbove p.target) s = (.ok (), s₁) ∧
    outcome (place p) s = (.ok (), s₂) ∧ s₁.disk.Names p.target l false ∧
    s₁.disk.get? l = some (.link t) ∧ s₁.disk.isFile p.target = false

/-- Placing some staged files one after the other, one of them takes away a link. -/
def LosesLink : List Pending → CommitState → Prop
  | [], _ => False
  | p :: ps, s => p.LosesLink s ∨ ∃ s', outcome (place p) s = (.ok (), s') ∧ LosesLink ps s'

variable {origin d : Disk} {waiting rest : List Waiting} {moves : List Move} {made : List Made}
  {w : Waiting} {p q target : Path}

namespace Unmentioned

theorem isOrdinary (h : Unmentioned p) : IsOrdinary p := by
  intro s hs
  refine h s ?_
  rw [Path.fileName?, Path.components_eq] at hs
  rcases List.eq_nil_or_concat (Path.moving p.split.2) with hnil | ⟨before, x, hmoves⟩
  · rw [hnil] at hs
    cases hstart : p.split.1 <;> simp [hstart, PathStart.components] at hs
  · have hx : Path.step x = .name x ∨ Path.step x = .up := by
      rw [Path.step]
      split_ifs <;> simp
    rw [hmoves] at hs ⊢
    rcases hx with hx | hx
    · simp only [List.concat_eq_append, List.map_append, List.map_cons, List.map_nil, hx,
        ← List.append_assoc, List.getLast?_concat, Option.some.injEq] at hs
      simp [hs]
    · simp [hx, ← List.append_assoc] at hs

theorem parent (h : Unmentioned p) (hq : p.parent? = some q) : Unmentioned q := by
  intro s hs
  rw [← (Disk.startOf_moving [] q).2, (Disk.startOf_parent [] hq).2,
    (Disk.startOf_moving [] p).2] at hs
  exact h s (List.mem_of_mem_dropLast hs)

theorem ancestors (h : Unmentioned p) (hq : q ∈ p.ancestors) : Unmentioned q :=
  Path.ancestors_induction (fun _ _ hp => hp.parent) h q hq

end Unmentioned

/-- Making a directory at an unmentioned path keeps what can be taken back. -/
theorem recoverable_make (hlinks : LinksUnmentioned origin) (hp : Unmentioned p) :
    KeptByMaking (fun made d => Recoverable origin waiting moves made d ∧
      ∀ l ∈ touchedBy moves, Taken d l) p := by
  rintro made d l slash ⟨h, htaken⟩ hn hl
  refine ⟨h.make htaken hn (fun e => h.names_of_within htaken hlinks hp hn) hl _, fun k hk => ?_⟩
  have hkl : k ≠ l := by
    rintro rfl
    exact (htaken k hk).ne_none hl
  exact (htaken k hk).of_eq (by rw [Disk.get?_put_eq hn.ne_nil, Function.update_of_ne hkl])

/-- Making what is missing above a target. -/
theorem makeAbove_recoverable (h : Recoverable origin waiting moves made d)
    (htaken : ∀ l ∈ touchedBy moves, Taken d l) (hlinks : LinksUnmentioned origin)
    (htarget : Unmentioned target) :
    ∃ r new d', outcome (makeAbove target) ⟨d, journalOf moves made⟩ =
        (r, ⟨d', journalOf moves (new ++ made)⟩) ∧
      Recoverable origin waiting moves (new ++ made) d' ∧
      (∀ l ∈ touchedBy moves, Taken d' l) := by
  obtain ⟨r, new, d', hout, ⟨h', htaken'⟩, -⟩ := outcome_makeAbove
    (fun dir hdir p hp => recoverable_make hlinks ((htarget.parent hdir).ancestors hp))
    ⟨h, htaken⟩ moves
  exact ⟨r, new, d', hout, h', htaken'⟩

/-- Putting a staged file in place can be taken back, unless it takes away a link. -/
theorem settle_recoverable (h : Recoverable origin (w :: rest) moves made d)
    (htaken : ∀ l ∈ touchedBy moves, Taken d l) (hord : IsOrdinary w.pending.target)
    (hspare : ∀ s l t, outcome (settle w.pending) ⟨d, journalOf moves made⟩ = (.ok (), s) →
      d.Names w.pending.target l false → d.get? l = some (.link t) →
      d.isFile w.pending.target = true) :
    (∃ e d', outcome (settle w.pending) ⟨d, journalOf moves made⟩ =
        (.error e, ⟨d', journalOf moves made⟩) ∧
        Recoverable origin (w :: rest) moves made d') ∨
      ∃ m d', outcome (settle w.pending) ⟨d, journalOf moves made⟩ =
          (.ok (), ⟨d', journalOf (m :: moves) made⟩) ∧
        Recoverable origin rest (m :: moves) made d' ∧
        ∀ l ∈ touchedBy (m :: moves), Taken d' l := by
  have hwaits := (h.waits w List.mem_cons_self).1
  rcases outcome_settle_cases h.rooted hwaits (hwaits.named.of_keepsWays h.keepsWays) hord
      (journalOf moves made) with
    ⟨e, d', hout, hsame⟩ | ⟨s, l, t, hout, hn, ht, hnofile⟩ | ⟨m, d', hout, hm⟩
  · exact Or.inl ⟨e, d', hout, h.of_sameTree hsame⟩
  · simp [hspare s l t hout hn ht] at hnofile
  · obtain ⟨hrec, htaken'⟩ := hm.recoverable h htaken
    exact Or.inr ⟨m, d', hout, hrec, htaken'⟩

/-- One step of a commit can be taken back, unless it takes away a link. -/
theorem place_recoverable (h : Recoverable origin (w :: rest) moves made d)
    (htaken : ∀ l ∈ touchedBy moves, Taken d l) (hlinks : LinksUnmentioned origin)
    (htarget : Unmentioned w.pending.target)
    (hspare : ¬ w.pending.LosesLink ⟨d, journalOf moves made⟩) :
    (∃ e new d', outcome (place w.pending) ⟨d, journalOf moves made⟩ =
        (.error e, ⟨d', journalOf moves (new ++ made)⟩) ∧
        Recoverable origin (w :: rest) moves (new ++ made) d') ∨
      ∃ m new d', outcome (place w.pending) ⟨d, journalOf moves made⟩ =
          (.ok (), ⟨d', journalOf (m :: moves) (new ++ made)⟩) ∧
        Recoverable origin rest (m :: moves) (new ++ made) d' ∧
        ∀ l ∈ touchedBy (m :: moves), Taken d' l := by
  obtain ⟨r, new, d₁, habove, h₁, htaken₁⟩ := makeAbove_recoverable h htaken hlinks htarget
  cases r with
  | error e =>
    refine Or.inl ⟨e, new, d₁, ?_, h₁⟩
    rw [place_eq, outcome_bind, habove]
  | ok u =>
    have hplace : outcome (place w.pending) ⟨d, journalOf moves made⟩ =
        outcome (settle w.pending) ⟨d₁, journalOf moves (new ++ made)⟩ := by
      rw [place_eq, outcome_bind, habove]
    have hspare₁ : ∀ s l t, outcome (settle w.pending) ⟨d₁, journalOf moves (new ++ made)⟩ =
        (.ok (), s) → d₁.Names w.pending.target l false → d₁.get? l = some (.link t) →
        d₁.isFile w.pending.target = true := by
      intro s l t hsettle hn ht
      by_contra hfile
      exact hspare ⟨_, s, l, t, habove, hplace.trans hsettle, hn, ht, by simpa using hfile⟩
    rw [hplace]
    rcases settle_recoverable h₁ htaken₁ htarget.isOrdinary hspare₁ with
      ⟨e, d₂, hsettle, h₂⟩ | ⟨m, d₂, hsettle, h₂, htaken₂⟩
    · exact Or.inl ⟨e, new, d₂, hsettle, h₂⟩
    · exact Or.inr ⟨m, new, d₂, hsettle, h₂, htaken₂⟩

end ProtoForge.Output
