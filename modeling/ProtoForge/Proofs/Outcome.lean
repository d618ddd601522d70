import ProtoForge.Failure
import Mathlib.Tactic

/-!
# Outcomes of actions

All actions of this library fail with a value and keep the state that they
reached. The outcome of an action is its result together with that state; the
laws below compute it along the program text, so that a proof about an action
follows its lines.
-/
namespace ProtoForge

variable {ε σ α β : Type}

/-- What an action gives in a state, and the state that it leaves. -/
def outcome (x : ExceptT ε (StateM σ) α) (s : σ) : Except ε α × σ := x.run.run s

@[simp] theorem outcome_pure (a : α) (s : σ) :
    outcome (pure a : ExceptT ε (StateM σ) α) s = (.ok a, s) := rfl

@[simp] theorem outcome_throw (e : ε) (s : σ) :
    outcome (throw e : ExceptT ε (StateM σ) α) s = (.error e, s) := rfl

@[simp] theorem outcome_get (s : σ) :
    outcome (get : ExceptT ε (StateM σ) σ) s = (.ok s, s) := rfl

@[simp] theorem outcome_modify (f : σ → σ) (s : σ) :
    outcome (modify f : ExceptT ε (StateM σ) PUnit) s = (.ok ⟨⟩, f s) := rfl

theorem outcome_bind (x : ExceptT ε (StateM σ) α) (f : α → ExceptT ε (StateM σ) β) (s : σ) :
    outcome (x >>= f) s =
      match outcome x s with
      | (.ok a, s') => outcome (f a) s'
      | (.error e, s') => (.error e, s') := by
  change StateT.run (ExceptT.bindCont f (outcome x s).1) (outcome x s).2 = _
  rcases outcome x s with ⟨r | r, s'⟩ <;> rfl

/-- An action that succeeds succeeds in both of its parts. -/
theorem outcome_bind_eq_ok {x : ExceptT ε (StateM σ) α} {f : α → ExceptT ε (StateM σ) β} {s s' : σ}
    {b : β} :
    outcome (x >>= f) s = (.ok b, s') ↔
      ∃ a s₁, outcome x s = (.ok a, s₁) ∧ outcome (f a) s₁ = (.ok b, s') := by
  rw [outcome_bind]
  rcases outcome x s with ⟨e | a, s₁⟩
  · simp
  · simp

/-- An action that fails fails in its first part, or in the second after the first. -/
theorem outcome_bind_eq_error {x : ExceptT ε (StateM σ) α} {f : α → ExceptT ε (StateM σ) β}
    {s s' : σ} {e : ε} :
    outcome (x >>= f) s = (.error e, s') ↔
      outcome x s = (.error e, s') ∨
        ∃ a s₁, outcome x s = (.ok a, s₁) ∧ outcome (f a) s₁ = (.error e, s') := by
  rw [outcome_bind]
  rcases outcome x s with ⟨e' | a, s₁⟩
  · simp
  · simp

theorem outcome_tryCatch (x : ExceptT ε (StateM σ) α) (h : ε → ExceptT ε (StateM σ) α) (s : σ) :
    outcome (tryCatch x h) s =
      match outcome x s with
      | (.ok a, s') => (.ok a, s')
      | (.error e, s') => outcome (h e) s' := by
  change StateT.run (m := Id) (match (outcome x s).1 with
    | .ok a => pure (.ok a)
    | .error e => (h e).run) (outcome x s).2 = _
  rcases outcome x s with ⟨r | r, s'⟩ <;> rfl

@[simp] theorem outcome_lift (x : StateM σ α) (s : σ) :
    outcome (liftM x : ExceptT ε (StateM σ) α) s = (.ok (x.run s).1, (x.run s).2) := rfl

theorem outcome_foldlM_cons (f : β → α → ExceptT ε (StateM σ) β) (b : β) (x : α) (xs : List α)
    (s : σ) :
    outcome ((x :: xs).foldlM f b) s =
      match outcome (f b x) s with
      | (.ok b', s') => outcome (xs.foldlM f b') s'
      | (.error e, s') => (.error e, s') :=
  outcome_bind (f b x) (fun b' => xs.foldlM f b') s

/-- What every round of a loop keeps holds after the loop. -/
theorem foldlM_invariant {f : β → α → ExceptT ε (StateM σ) β} {P : β → σ → Prop} {xs : List α}
    (hstep : ∀ a ∈ xs, ∀ b s b' s', P b s → outcome (f b a) s = (.ok b', s') → P b' s')
    {b b' : β} {s s' : σ} (hP : P b s) (h : outcome (xs.foldlM f b) s = (.ok b', s')) : P b' s' := by
  induction xs generalizing b s with
  | nil =>
    obtain ⟨hb, rfl⟩ := Prod.mk.inj h
    obtain rfl := Except.ok.inj hb
    exact hP
  | cons a xs ih =>
    rw [List.foldlM_cons] at h
    obtain ⟨b₁, s₁, hfirst, hrest⟩ := outcome_bind_eq_ok.mp h
    exact ih (fun a' ha' => hstep a' (List.mem_cons_of_mem a ha'))
      (hstep a List.mem_cons_self b s b₁ s₁ hP hfirst) hrest

theorem outcome_forM_cons {f : α → ExceptT ε (StateM σ) PUnit} (x : α) (xs : List α) (s : σ) :
    outcome ((x :: xs).forM f) s = outcome (f x >>= fun _ => xs.forM f) s := rfl

theorem outcome_forM_append {f : α → ExceptT ε (StateM σ) PUnit} (xs ys : List α) (s : σ) :
    outcome ((xs ++ ys).forM f) s = outcome (xs.forM f >>= fun _ => ys.forM f) s :=
  congrArg (outcome · s) List.forM_append

/-- Actions that cannot fail, one for each member of a list. -/
theorem outcome_forM_of_ok {f : α → ExceptT ε (StateM σ) PUnit} {g : σ → α → σ}
    (h : ∀ x s, outcome (f x) s = (.ok ⟨⟩, g s x)) (xs : List α) (s : σ) :
    outcome (xs.forM f) s = (.ok ⟨⟩, xs.foldl g s) := by
  induction xs generalizing s with
  | nil => rfl
  | cons x xs ih =>
    rw [outcome_forM_cons, outcome_bind, h]
    exact ih (g s x)

/-- Whether it fails or not, an action leads from every state to a related one. -/
def Respects (R : σ → σ → Prop) (x : ExceptT ε (StateM σ) α) : Prop := ∀ s, R s (outcome x s).2

namespace Respects

variable {R : σ → σ → Prop} [IsPreorder σ R] {x : ExceptT ε (StateM σ) α}

omit [IsPreorder σ R] in
theorem of_outcome {s t : σ} {r : Except ε α} (hx : Respects R x) (h : outcome x s = (r, t)) :
    R s t := by
  have hs := hx s
  rwa [h] at hs

theorem pure (a : α) : Respects R (Pure.pure a : ExceptT ε (StateM σ) α) := fun s => refl_of R s

theorem throw (e : ε) : Respects R (MonadExcept.throw e : ExceptT ε (StateM σ) α) :=
  fun s => refl_of R s

theorem get : Respects R (MonadState.get : ExceptT ε (StateM σ) σ) := fun s => refl_of R s

theorem bind {k : α → ExceptT ε (StateM σ) β} (hx : Respects R x) (hk : ∀ a, Respects R (k a)) :
    Respects R (x >>= k) := by
  intro s
  have hs := hx s
  rw [outcome_bind]
  generalize outcome x s = r at hs ⊢
  rcases r with ⟨e | a, s'⟩
  · exact hs
  · exact trans_of R hs (hk a s')

theorem tryCatch {h : ε → ExceptT ε (StateM σ) α} (hx : Respects R x) (hh : ∀ e, Respects R (h e)) :
    Respects R (MonadExcept.tryCatch x h) := by
  intro s
  have hs := hx s
  rw [outcome_tryCatch]
  generalize outcome x s = r at hs ⊢
  rcases r with ⟨e | a, s'⟩
  · exact trans_of R hs (hh e s')
  · exact hs

theorem foldlM {f : β → α → ExceptT ε (StateM σ) β} (xs : List α)
    (hf : ∀ a ∈ xs, ∀ b, Respects R (f b a)) (b : β) : Respects R (xs.foldlM f b) := by
  induction xs generalizing b with
  | nil => exact pure b
  | cons a xs ih =>
    rw [List.foldlM_cons]
    apply bind (hf a List.mem_cons_self b)
    intro b'
    exact ih (fun a' ha' => hf a' (List.mem_cons_of_mem a ha')) b'

theorem mapM {f : α → ExceptT ε (StateM σ) β} (xs : List α) (hf : ∀ a ∈ xs, Respects R (f a)) :
    Respects R (xs.mapM f) := by
  induction xs with
  | nil => exact pure []
  | cons a xs ih =>
    rw [List.mapM_cons]
    apply bind (hf a List.mem_cons_self)
    intro b
    exact bind (ih fun a' ha' => hf a' (List.mem_cons_of_mem a ha')) fun _ => pure _

theorem forM {f : α → ExceptT ε (StateM σ) PUnit} (xs : List α) (hf : ∀ a ∈ xs, Respects R (f a)) :
    Respects R (xs.forM f) := by
  induction xs with
  | nil => exact pure _
  | cons a xs ih =>
    exact bind (hf a List.mem_cons_self) fun _ => ih fun a' ha' => hf a' (List.mem_cons_of_mem a ha')

/-- A loop that succeeds succeeds in each of its rounds. -/
theorem exists_of_forM {f : α → ExceptT ε (StateM σ) PUnit} {xs : List α} {a : α} {u : PUnit} {s t : σ}
    (hf : ∀ a ∈ xs, Respects R (f a)) (h : outcome (xs.forM f) s = (.ok u, t)) (ha : a ∈ xs) :
    ∃ v s₁ t₁, R s s₁ ∧ outcome (f a) s₁ = (.ok v, t₁) ∧ R t₁ t := by
  induction xs generalizing s with
  | nil => cases ha
  | cons b xs ih =>
    rw [outcome_forM_cons] at h
    obtain ⟨v, s₁, hfirst, hrest⟩ := outcome_bind_eq_ok.mp h
    have hothers := fun a ha => hf a (List.mem_cons_of_mem b ha)
    rcases List.mem_cons.mp ha with rfl | ha
    · exact ⟨v, s, s₁, refl_of R s, hfirst, (forM xs hothers).of_outcome hrest⟩
    · obtain ⟨w, s₂, t₂, hbefore, hround, hafter⟩ := ih hothers hrest ha
      exact ⟨w, s₂, t₂, trans_of R ((hf b List.mem_cons_self).of_outcome hfirst) hbefore, hround, hafter⟩

end Respects

/-- What is true of a state stays true. -/
instance isPreorder_imp (P : σ → Prop) : IsPreorder σ fun s t => P s → P t where
  refl _ := id
  trans _ _ _ h h' := h' ∘ h

/-- Whether it fails or not, an action leaves no state with a greater measure. -/
def NeverRaises (f : σ → ℕ) (x : ExceptT ε (StateM σ) α) : Prop := ∀ s, f (outcome x s).2 ≤ f s

instance isPreorder_measure (f : σ → ℕ) : IsPreorder σ fun s t => f t ≤ f s where
  refl _ := le_rfl
  trans _ _ _ h h' := h'.trans h

namespace NeverRaises

variable {f : σ → ℕ} {x : ExceptT ε (StateM σ) α}

theorem respects (hx : NeverRaises f x) : Respects (fun s t => f t ≤ f s) x := hx

theorem pure (a : α) : NeverRaises f (Pure.pure a : ExceptT ε (StateM σ) α) := fun _ => le_rfl

theorem throw (e : ε) : NeverRaises f (MonadExcept.throw e : ExceptT ε (StateM σ) α) :=
  fun _ => le_rfl

theorem get : NeverRaises f (MonadState.get : ExceptT ε (StateM σ) σ) := fun _ => le_rfl

theorem bind {k : α → ExceptT ε (StateM σ) β} (hx : NeverRaises f x)
    (hk : ∀ a, NeverRaises f (k a)) : NeverRaises f (x >>= k) :=
  hx.respects.bind fun a => (hk a).respects

theorem tryCatch {h : ε → ExceptT ε (StateM σ) α} (hx : NeverRaises f x)
    (hh : ∀ e, NeverRaises f (h e)) : NeverRaises f (MonadExcept.tryCatch x h) :=
  hx.respects.tryCatch fun e => (hh e).respects

theorem forM {g : β → ExceptT ε (StateM σ) PUnit} (hg : ∀ b, NeverRaises f (g b)) (bs : List β) :
    NeverRaises f (bs.forM g) :=
  Respects.forM bs fun b _ => (hg b).respects

end NeverRaises

end ProtoForge
