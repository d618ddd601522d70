import ProtoForge.Proofs.Files.Growth

/-!
# Alike disks

Where two disks differ in what files hold and in nothing else, paths lead to
the same places, and walks meet the same paths in the same order.
-/
namespace ProtoForge.Files

/-- An entry met on a walk, with a view of what it holds. -/
def WalkEntry.mapContent (f : Content → Content) (e : WalkEntry) : WalkEntry :=
  ⟨e.path, e.entry.mapContent f⟩

namespace Disk

variable {d e : Disk} {f : Content → Content} {l : Location} {p root : Path} {x y : Entry}

/-- Two results that look the same are the same fault or look the same as values. -/
theorem map_eq_map_cases {ε α β : Type} {g : α → β} {u v : Except ε α} (h : u.map g = v.map g) :
    (∃ fault, u = .error fault ∧ v = .error fault) ∨ ∃ a b, u = .ok a ∧ v = .ok b ∧ g a = g b := by
  cases u with
  | error fault =>
    cases v with
    | error fault' =>
      obtain rfl := Except.error.inj h
      exact Or.inl ⟨fault, rfl, rfl⟩
    | ok b => cases h
  | ok a =>
    cases v with
    | error fault' => cases h
    | ok b => exact Or.inr ⟨a, b, rfl, rfl, Except.ok.inj h⟩

@[simp] theorem isDirectory_mapContent (x : Entry) :
    (x.mapContent f).isDirectory = x.isDirectory := by
  cases x <;> rfl

@[simp] theorem isFile_mapContent (x : Entry) : (x.mapContent f).isFile = x.isFile := by
  cases x <;> rfl

theorem map_mapContent_eq_directory {z : Option Entry} {m : ℕ} :
    z.map (Entry.mapContent f) = some (.directory m) ↔ z = some (.directory m) := by
  cases z with
  | none => simp
  | some x => cases x <;> simp [Entry.mapContent]

theorem map_mapContent_eq_link {z : Option Entry} {t : String} :
    z.map (Entry.mapContent f) = some (.link t) ↔ z = some (.link t) := by
  cases z with
  | none => simp
  | some x => cases x <;> simp [Entry.mapContent]

theorem namesLe_antisymm : ∀ ps qs : List String, namesLe ps qs = true → namesLe qs ps = true →
    ps = qs
  | [], [], _, _ => rfl
  | [], _ :: _, _, h => by simp [namesLe] at h
  | _ :: _, [], h, _ => by simp [namesLe] at h
  | a :: ps, b :: qs, h, h' => by
      by_cases hab : a = b
      · subst hab
        simp only [namesLe, if_true] at h h'
        rw [namesLe_antisymm ps qs h h']
      · simp only [namesLe, hab, Ne.symm hab, if_false, decide_eq_true_eq] at h h'
        exact absurd (String.le_antisymm h h') hab

/-- Where alike entries lie below a location, walks meet them in the same order. -/
theorem map_below_eq (hd : d.IsProper) (he : e.IsProper) (h : ∀ ps,
    (e.get? (l ++ ps)).map (Entry.mapContent f) = (d.get? (l ++ ps)).map (Entry.mapContent f)) :
    (e.below l).map (Prod.map id (Entry.mapContent f)) =
      (d.below l).map (Prod.map id (Entry.mapContent f)) := by
  have hmem : ∀ {b : Disk}, b.IsProper → ∀ ps z,
      (ps, z) ∈ (b.below l).map (Prod.map id (Entry.mapContent f)) ↔
        ps ≠ [] ∧ (b.get? (l ++ ps)).map (Entry.mapContent f) = some z := by
    intro b hb ps z
    simp only [List.mem_map, Prod.exists, Prod.map_apply, id_eq, Prod.mk.injEq, hb.mem_below,
      Option.map_eq_some_iff]
    constructor
    · rintro ⟨qs, x, ⟨hne, hx⟩, rfl, hz⟩
      exact ⟨hne, x, hx, hz⟩
    · rintro ⟨hne, x, hx, hz⟩
      exact ⟨ps, x, ⟨hne, hx⟩, rfl, hz⟩
  have hnodup : ∀ {b : Disk}, b.IsProper →
      ((b.below l).map (Prod.map id (Entry.mapContent f))).Nodup := by
    intro b hb
    apply List.Nodup.of_map Prod.fst
    rw [List.map_map]
    exact hb.nodup_below l
  have hsorted : ∀ b : Disk, ((b.below l).map (Prod.map id (Entry.mapContent f))).Pairwise
      fun x y => namesLe x.1 y.1 = true := by
    intro b
    rw [List.pairwise_map]
    exact IsProper.sorted_below b l
  apply List.Perm.eq_of_pairwise _ (hsorted e) (hsorted d)
  · rw [List.perm_ext_iff_of_nodup (hnodup he) (hnodup hd)]
    rintro ⟨ps, z⟩
    rw [hmem he, hmem hd, h]
  · rintro ⟨ps, x⟩ ⟨qs, y⟩ hx hy hle hle'
    obtain rfl : ps = qs := namesLe_antisymm ps qs hle hle'
    rw [hmem he, h] at hx
    rw [hmem hd, hx.2] at hy
    rw [Option.some.inj hy.2]

theorem map_walkBelow_eq (hd : d.IsProper) (he : e.IsProper) (root : Path) (h : ∀ ps,
    (e.get? (l ++ ps)).map (Entry.mapContent f) = (d.get? (l ++ ps)).map (Entry.mapContent f)) :
    (e.walkBelow root l).map (WalkEntry.mapContent f) =
      (d.walkBelow root l).map (WalkEntry.mapContent f) := by
  have hbelow : ∀ b : Disk, (b.walkBelow root l).map (WalkEntry.mapContent f) =
      ((b.below l).map (Prod.map id (Entry.mapContent f))).map fun x => ⟨root.below x.1, x.2⟩ := by
    intro b
    rw [walkBelow_eq, List.map_map, List.map_map]
    rfl
  rw [hbelow, hbelow, map_below_eq hd he h]

theorem mapContent_id : Entry.mapContent id = id := by
  funext x
  cases x <;> rfl

namespace Alike

theorem symm (h : d.Alike f e) : e.Alike f d :=
  ⟨h.workingDirectory.symm, fun l => (h.entries l).symm⟩

theorem eq_none_iff (h : d.Alike f e) : e.get? l = none ↔ d.get? l = none := by
  rw [← Option.map_eq_none_iff, h.entries, Option.map_eq_none_iff]

theorem eq_directory_iff (h : d.Alike f e) {m : ℕ} :
    e.get? l = some (.directory m) ↔ d.get? l = some (.directory m) := by
  rw [← map_mapContent_eq_directory (f := f), h.entries, map_mapContent_eq_directory]

theorem eq_link_iff (h : d.Alike f e) {t : String} :
    e.get? l = some (.link t) ↔ d.get? l = some (.link t) := by
  rw [← map_mapContent_eq_link (f := f), h.entries, map_mapContent_eq_link]

theorem eq_file (h : d.Alike f e) {c : Content} {m : ℕ} (hl : d.get? l = some (.file c m)) :
    ∃ c', e.get? l = some (.file c' m) ∧ f c' = f c := by
  have hx := h.entries l
  rw [hl] at hx
  obtain ⟨y, hy, heq⟩ := Option.map_eq_some_iff.mp hx
  cases y with
  | directory n => cases heq
  | link t => cases heq
  | file c' n =>
    simp only [Entry.mapContent, Entry.file.injEq] at heq
    obtain ⟨hc, rfl⟩ := heq
    exact ⟨c', hy, hc⟩

/-- A proper disk has all that an alike one has. -/
theorem grown (h : d.Alike f e) (he : e.IsProper) : d.Grown e where
  workingDirectory := h.workingDirectory
  directories l := fun ⟨m, hm⟩ => ⟨m, h.eq_directory_iff.mpr hm⟩
  files l := fun ⟨c, m, hl⟩ => by
    obtain ⟨c', hc', -⟩ := h.eq_file hl
    exact ⟨c', m, hc'⟩
  links l t ht := h.eq_link_iff.mpr ht
  proper _ := he

/-- Paths lead to alike entries. -/
theorem map_status_eq (h : d.Alike f e) (p : Path) :
    (e.status p).map (Prod.map id (Entry.mapContent f)) =
      (d.status p).map (Prod.map id (Entry.mapContent f)) := by
  rw [status, status, h.locate_eq]
  cases d.locate p true with
  | error g => rfl
  | ok l =>
    have hl := h.entries l
    simp only [ok_bind]
    revert hl
    cases e.get? l with
    | none =>
      cases d.get? l with
      | none => simp
      | some y => simp
    | some x =>
      cases d.get? l with
      | none => simp
      | some y =>
        intro hl
        simp only [Option.map_some, Option.some.injEq] at hl
        simp [Except.map, hl]

/-- Walks over alike disks meet alike entries under the same paths. -/
theorem map_walk_eq (h : d.Alike f e) (hd : d.IsProper) (he : e.IsProper) (root : Path) :
    (e.walk root).map (List.map (WalkEntry.mapContent f)) =
      (d.walk root).map (List.map (WalkEntry.mapContent f)) := by
  have hbelow : ∀ l, (e.walkBelow root l).map (WalkEntry.mapContent f) =
      (d.walkBelow root l).map (WalkEntry.mapContent f) := fun l =>
    map_walkBelow_eq hd he root fun ps => h.entries (l ++ ps)
  rw [walk, walk, h.locate_eq]
  cases d.locate root false with
  | error g => rfl
  | ok l =>
    simp only [Except.mapError, ok_bind]
    cases hx : e.get? l with
    | none =>
      rw [h.eq_none_iff] at hx
      rw [hx]
    | some x =>
      cases x with
      | directory m =>
        rw [h.eq_directory_iff] at hx
        rw [hx]
        simp [Except.map, hbelow]
      | file c m =>
        obtain ⟨c', hc', hc⟩ := h.symm.eq_file hx
        rw [hc']
        simp [Except.map, hbelow, WalkEntry.mapContent, Entry.mapContent, hc]
      | link t =>
        rw [h.eq_link_iff] at hx
        rw [hx]
        rcases map_eq_map_cases (h.map_status_eq root) with
          ⟨fault, hs, hs'⟩ | ⟨⟨k, y⟩, ⟨k', y'⟩, hs, hs', hsame⟩
        · rw [hs, hs']
          rfl
        · obtain ⟨rfl, hy⟩ := Prod.mk.inj hsame
          have hdirectory : y.isDirectory = y'.isDirectory := by
            rw [← isDirectory_mapContent (f := f), hy, isDirectory_mapContent]
          simp only [hs, hs', ok_bind, hdirectory]
          cases y'.isDirectory with
          | false => rfl
          | true => simp [Except.map, hbelow, WalkEntry.mapContent, Entry.mapContent]

/-- Paths have the same canonical paths. -/
theorem canonicalize_eq (h : d.Alike f e) (p : Path) : e.canonicalize p = d.canonicalize p := by
  rw [canonicalize, canonicalize]
  rcases map_eq_map_cases (h.map_status_eq p) with
    ⟨fault, hs, hs'⟩ | ⟨⟨k, x⟩, ⟨k', x'⟩, hs, hs', hsame⟩
  · rw [hs, hs']
  · obtain ⟨rfl, -⟩ := Prod.mk.inj hsame
    rw [hs, hs']
    rfl

end Alike

namespace SameTree

/-- Walks meet the same on both disks. -/
theorem walk_eq (h : d.SameTree e) (hd : d.IsProper) (he : e.IsProper) (root : Path) :
    e.walk root = d.walk root := by
  have hentry : WalkEntry.mapContent id = id := by
    funext ⟨p, x⟩
    rw [WalkEntry.mapContent, mapContent_id]
    rfl
  have hwalk := (h.alike id).map_walk_eq hd he root
  rwa [hentry, List.map_id_fun, Except.map_id, id_eq, id_eq] at hwalk

theorem read_eq (h : d.SameTree e) (p : Path) : e.read p = d.read p := by
  rw [read, read, h.status_eq]

end SameTree

end Disk

end ProtoForge.Files
