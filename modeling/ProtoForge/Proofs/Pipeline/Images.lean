import ProtoForge.Pipeline
import ProtoForge.Proofs.Files.Likeness

/-!
# Kept images

Images that were loaded are kept, so whatever was loaded in a run can be loaded
again, from the same disk or from what is kept.
-/
namespace ProtoForge

open Files

namespace Guest.Image

variable {d e : Disk} {m n last : ImageCache} {key path : Path} {image : Image}

/-- All that is kept in some images is kept in others. -/
def Kept (m n : ImageCache) : Prop :=
  ∀ key image, cached? m key = some image → cached? n key = some image

theorem Kept.refl (m : ImageCache) : Kept m m := fun _ _ h => h

theorem Kept.trans (h : Kept m n) (h' : Kept n last) : Kept m last :=
  fun key image hkey => h' key image (h key image hkey)

theorem cached?_cons (key path : Path) (image : Image) (m : ImageCache) :
    cached? ((key, image) :: m) path = if key.same path then some image else cached? m path := by
  rw [cached?, List.find?_cons]
  cases key.same path with
  | true => rfl
  | false => rfl

theorem cached?_congr (h : key.same path = true) : cached? m key = cached? m path := by
  have hcomponents : key.components = path.components := by simpa [Path.same] using h
  simp only [cached?, Path.same, hcomponents]

/-- An image is one that is kept, or it is read and kept from then on. -/
theorem load_eq_ok_iff :
    load d m path = .ok (image, n) ↔
      cached? m (d.absolutize path) = some image ∧ n = m ∨
        cached? m (d.absolutize path) = none ∧ read d (d.absolutize path) = .ok image ∧
          n = (d.absolutize path, image) :: m := by
  rw [load]
  cases cached? m (d.absolutize path) with
  | some kept => simp [eq_comm]
  | none =>
    cases read d (d.absolutize path) with
    | error f => simp
    | ok i =>
      constructor
      · intro h
        obtain ⟨rfl, rfl⟩ := Prod.mk.inj (Except.ok.inj h)
        exact Or.inr ⟨rfl, rfl, rfl⟩
      · rintro (⟨h, -⟩ | ⟨-, h, rfl⟩)
        · cases h
        · obtain rfl := Except.ok.inj h
          rfl

/-- Loading forgets no image. -/
theorem kept_of_load (h : load d m path = .ok (image, n)) : Kept m n := by
  intro key i hkey
  rcases load_eq_ok_iff.mp h with ⟨-, rfl⟩ | ⟨hnone, -, rfl⟩
  · exact hkey
  · rw [cached?_cons]
    split_ifs with hsame
    · rw [← cached?_congr hsame, hnone] at hkey
      cases hkey
    · exact hkey

/-- With as many images as were kept before, and no more than in the end, the same image is loaded
once more. -/
theorem load_again {m' : ImageCache} (h : load d m path = .ok (image, m')) (htree : d.SameTree e)
    (hlast : Kept m' last) (hm : Kept m n) (hn : Kept n last) :
    ∃ n', load e n path = .ok (image, n') ∧ Kept m' n' ∧ Kept n' last := by
  have hpath : e.absolutize path = d.absolutize path := by
    rw [Disk.absolutize, Disk.absolutize, htree.workingDirectory]
  have hread : ∀ key, read e key = read d key := by
    intro key
    rw [read, read, htree.read_eq]
  rw [load_eq_ok_iff] at h
  simp only [load_eq_ok_iff, hpath, hread]
  generalize d.absolutize path = key at h
  rcases h with ⟨hkept, rfl⟩ | ⟨hnone, hloaded, rfl⟩
  · exact ⟨n, Or.inl ⟨hm _ _ hkept, rfl⟩, hm, hn⟩
  have hall : ∀ k, key.same k = true → cached? last k = some image := by
    intro k hk
    apply hlast
    rw [cached?_cons, if_pos hk]
  cases hfound : cached? n key with
  | some i =>
    -- an image that has been kept since is the one that was read
    obtain rfl : i = image := by
      have hi := hn key i hfound
      rw [hall key (by simp [Path.same])] at hi
      exact (Option.some.inj hi).symm
    refine ⟨n, Or.inl ⟨rfl, rfl⟩, fun k j hj => ?_, hn⟩
    rw [cached?_cons] at hj
    split_ifs at hj with hsame
    · rw [← hj, ← hfound, cached?_congr hsame]
    · exact hm k j hj
  | none =>
    refine ⟨(key, image) :: n, Or.inr ⟨rfl, hloaded, rfl⟩, fun k j hj => ?_, fun k j hj => ?_⟩
    · rw [cached?_cons] at hj ⊢
      split_ifs at hj ⊢ with hsame
      · exact hj
      · exact hm k j hj
    · rw [cached?_cons] at hj
      split_ifs at hj with hsame
      · rw [← hj, hall k hsame]
      · exact hn k j hj

end Guest.Image

namespace Pipeline

open Generation Settings

variable {ε : Type} {c : Config} {plan : List (Planned (HostGenerator ε))}
  {planned : Planned (HostGenerator ε)} {generators : List (Generator ε)} {g : Generator ε}
  {u u' v w w' : World ε} {path : Path} {image : Guest.Image} {last : Guest.ImageCache}

theorem outcome_loadImage (path : Path) (w : World ε) :
    outcome (WorldAction.loadImage path) w =
      match Guest.Image.load w.disk w.images path with
      | .ok (image, images) => (.ok image, { w with images := images })
      | .error f => (.error f, w) := by
  rw [WorldAction.loadImage, outcome_bind, outcome_get]
  dsimp only
  cases Guest.Image.load w.disk w.images path <;> rfl

theorem loadImage_eq_ok_iff : outcome (WorldAction.loadImage path) w = (.ok image, w') ↔
    ∃ images, Guest.Image.load w.disk w.images path = .ok (image, images) ∧
      w' = { w with images := images } := by
  rw [outcome_loadImage]
  rcases Guest.Image.load w.disk w.images path with f | ⟨i, images⟩
  · simp
  · simp [eq_comm, and_assoc]

/-- Nothing changes but that more images are kept. -/
structure OnlyLoads (v w : World ε) : Prop where
  disk : w.disk = v.disk
  kept : Guest.Image.Kept v.images w.images

instance : IsPreorder (World ε) OnlyLoads where
  refl w := ⟨rfl, .refl w.images⟩
  trans _ _ _ h h' := ⟨h'.disk.trans h.disk, h.kept.trans h'.kept⟩

theorem respects_loadImage (path : Path) :
    Respects OnlyLoads (WorldAction.loadImage path : WorldAction ε Guest.Image) := by
  intro w
  rw [outcome_loadImage]
  cases hload : Guest.Image.load w.disk w.images path with
  | error f => exact refl_of OnlyLoads w
  | ok loaded => exact ⟨rfl, Guest.Image.kept_of_load hload⟩

theorem respects_buildGenerators (c : Config) (plan : List (Planned (HostGenerator ε))) :
    Respects OnlyLoads (plan.mapM (buildGenerator c)) := by
  apply Respects.mapM
  intro planned _
  cases planned with
  | registered g => exact .pure _
  | guest id path args => exact .bind (respects_loadImage path) fun _ => .pure _

/-- A world in which the same images can be loaded as in another one, that ends with some images. -/
structure Recalls (last : Guest.ImageCache) (u v : World ε) : Prop where
  tree : u.disk.SameTree v.disk
  kept : Guest.Image.Kept u.images v.images
  last : Guest.Image.Kept v.images last

theorem loadImage_again (h : outcome (WorldAction.loadImage path) u = (.ok image, u'))
    (hlast : Guest.Image.Kept u'.images last) (hv : Recalls last u v) :
    ∃ v', outcome (WorldAction.loadImage path) v = (.ok image, v') ∧ v'.disk = v.disk ∧
      Recalls last u' v' := by
  obtain ⟨images, hload, rfl⟩ := loadImage_eq_ok_iff.mp h
  obtain ⟨n, hn, hkept, hend⟩ := Guest.Image.load_again hload hv.tree hlast hv.kept hv.last
  exact ⟨_, loadImage_eq_ok_iff.mpr ⟨n, hn, rfl⟩, rfl, hv.tree, hkept, hend⟩

theorem buildGenerator_again (h : outcome (buildGenerator c planned) u = (.ok g, u'))
    (hlast : Guest.Image.Kept u'.images last) (hv : Recalls last u v) :
    ∃ v', outcome (buildGenerator c planned) v = (.ok g, v') ∧ v'.disk = v.disk ∧
      Recalls last u' v' := by
  cases planned with
  | registered g' =>
    obtain ⟨hg, rfl⟩ := Prod.mk.inj h
    obtain rfl := Except.ok.inj hg
    exact ⟨v, rfl, rfl, hv⟩
  | guest id path args =>
    obtain ⟨image, u₁, hload, h⟩ := outcome_bind_eq_ok.mp h
    obtain ⟨hg, rfl⟩ := Prod.mk.inj h
    obtain rfl := Except.ok.inj hg
    obtain ⟨v', hload', hdisk, hv'⟩ := loadImage_again hload hlast hv
    exact ⟨v', outcome_bind_eq_ok.mpr ⟨image, v', hload', rfl⟩, hdisk, hv'⟩

/-- The same generators are built once more. -/
theorem buildGenerators_again (h : outcome (plan.mapM (buildGenerator c)) u = (.ok generators, u'))
    (hlast : Guest.Image.Kept u'.images last) (hv : Recalls last u v) :
    ∃ v', outcome (plan.mapM (buildGenerator c)) v = (.ok generators, v') ∧ v'.disk = v.disk ∧
      Recalls last u' v' := by
  induction plan generalizing generators u v with
  | nil =>
    obtain ⟨hg, rfl⟩ := Prod.mk.inj h
    obtain rfl := Except.ok.inj hg
    exact ⟨v, rfl, rfl, hv⟩
  | cons planned plan ih =>
    rw [List.mapM_cons] at h ⊢
    obtain ⟨g, u₁, hfirst, h⟩ := outcome_bind_eq_ok.mp h
    obtain ⟨gs, u₂, hrest, h⟩ := outcome_bind_eq_ok.mp h
    obtain ⟨hg, rfl⟩ := Prod.mk.inj h
    obtain rfl := Except.ok.inj hg
    have hkept := ((respects_buildGenerators c plan).of_outcome hrest).kept
    obtain ⟨v₁, hfirst', hdisk₁, hv₁⟩ := buildGenerator_again hfirst (hkept.trans hlast) hv
    obtain ⟨v₂, hrest', hdisk₂, hv₂⟩ := ih hrest hv₁
    refine ⟨v₂, ?_, hdisk₂.trans hdisk₁, hv₂⟩
    exact outcome_bind_eq_ok.mpr ⟨g, v₁, hfirst', outcome_bind_eq_ok.mpr ⟨gs, v₂, hrest', rfl⟩⟩

end Pipeline

end ProtoForge
