import ProtoForge.Generation.Dispatcher
import ProtoForge.Proofs.Generation.Batch
import ProtoForge.Proofs.Outcome

/-!
# Dispatching to host generators

Generators that are no guests have a state of their own and leave the disk
alone. Their answers end up in one consistent batch.
-/
namespace ProtoForge

variable {ε α : Type}

theorem outcome_worldOnDisk (a : RunAction α) (w : World ε) :
    outcome (WorldAction.onDisk a) w =
      match outcome a w.disk with
      | (.ok x, d) => (.ok x, { w with disk := d })
      | (.error e, d) => (.error e, { w with disk := d }) := by
  rw [WorldAction.onDisk, outcome_bind, outcome_get]
  have hrun : a.run.run w.disk = outcome a w.disk := rfl
  dsimp only
  rw [hrun]
  rcases outcome a w.disk with ⟨e | x, d⟩ <;> rfl

theorem outcome_worldOnDisk_eq_ok {a : RunAction α} {w w' : World ε} {x : α}
    (h : outcome (WorldAction.onDisk a) w = (.ok x, w')) :
    ∃ d, outcome a w.disk = (.ok x, d) ∧ w' = { w with disk := d } := by
  rw [outcome_worldOnDisk] at h
  rcases ha : outcome a w.disk with ⟨e | y, d⟩
  · rw [ha] at h
    cases h
  · rw [ha] at h
    obtain ⟨hx, hw⟩ := Prod.mk.inj h
    exact ⟨d, by rw [Except.ok.inj hx], hw.symm⟩

theorem outcome_worldOnExtra (a : ExceptT Failure (StateM ε) α) (w : World ε) :
    outcome (WorldAction.onExtra a) w =
      match outcome a w.extra with
      | (.ok x, extra) => (.ok x, { w with extra := extra })
      | (.error e, extra) => (.error e, { w with extra := extra }) := by
  rw [WorldAction.onExtra, outcome_bind, outcome_get]
  have hrun : a.run.run w.extra = outcome a w.extra := rfl
  dsimp only
  rw [hrun]
  rcases outcome a w.extra with ⟨e | x, extra⟩ <;> rfl

namespace Generation

variable {generators : List (Generator ε)} {g : Generator ε} {b b' : Batch} {w w' : World ε}
  {request : Plugin.Request} {view : Staging.View}

/-- A generator that is no guest. -/
def Generator.IsHost (g : Generator ε) : Prop := ∃ h, g = .host h

theorem addAnswer_host (hg : g.IsHost) (hb : b.Indexed)
    (h : outcome (addAnswer request view b g) w = (.ok b', w')) :
    w'.disk = w.disk ∧ b'.Indexed := by
  obtain ⟨g, rfl⟩ := hg
  rw [addAnswer, outcome_bind, Generator.generate, outcome_worldOnExtra] at h
  rcases hanswer : outcome (g.generate request) w.extra with ⟨e | response, extra⟩
  · simp [hanswer] at h
  rw [hanswer] at h
  dsimp only at h
  rcases hadd : b.add (Generator.host g).id response with ⟨e | ⟨⟩, b''⟩
  · rw [hadd] at h
    simp at h
  · rw [hadd] at h
    obtain ⟨hok, rfl⟩ := Prod.mk.inj h
    obtain rfl := Except.ok.inj hok
    refine ⟨rfl, ?_⟩
    have hindexed := hb.add (Generator.host g).id response
    rwa [hadd] at hindexed

theorem addAnswers_host (hhost : ∀ g ∈ generators, g.IsHost) (hb : b.Indexed)
    (h : outcome (generators.foldlM (addAnswer request view) b) w = (.ok b', w')) :
    w'.disk = w.disk ∧ b'.Indexed := by
  induction generators generalizing b w with
  | nil =>
    obtain ⟨hok, rfl⟩ := Prod.mk.inj h
    exact ⟨rfl, Except.ok.inj hok ▸ hb⟩
  | cons g generators ih =>
    rw [List.foldlM_cons] at h
    obtain ⟨b₁, w₁, hanswer, hrest⟩ := outcome_bind_eq_ok.mp h
    obtain ⟨hdisk, hindexed⟩ := addAnswer_host (hhost g List.mem_cons_self) hb hanswer
    obtain ⟨hdisk', hindexed'⟩ :=
      ih (fun g hg => hhost g (List.mem_cons_of_mem _ hg)) hindexed hrest
    exact ⟨hdisk'.trans hdisk, hindexed'⟩

/-- Host generators leave the disk as it is and fill a consistent batch. -/
theorem dispatch_host {request : Resolution.CompilationRequest}
    (hhost : ∀ g ∈ generators, g.IsHost)
    (h : outcome (dispatch generators request view) w = (.ok b, w')) :
    w'.disk = w.disk ∧ b.Indexed :=
  addAnswers_host hhost Batch.indexed_empty h

end Generation

end ProtoForge
