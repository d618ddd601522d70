import ProtoForge.Proofs.Files.Walks
import ProtoForge.Proofs.Generation.OutputPath
import ProtoForge.Staging.Stage

/-!
# Names in a view

A path below a directory is staged under the names that lead there, joined by
slashes; the directories that hold a name are the parts of it before a slash.
-/
namespace ProtoForge

namespace OrderedMap

variable {α : Type} {m : OrderedMap α} {k j : String} {v : α}

theorem get?_insert (m : OrderedMap α) (k j : String) (v : α) :
    (m.insert k v).get? j = if j = k then some v else m.get? j := by
  by_cases h : j = k
  · rw [if_pos h, h, get?_insert_self]
  · rw [if_neg h, get?_insert_of_ne m v h]

/-- A key that has a value keeps it. -/
theorem get?_insertNew (m : OrderedMap α) (k j : String) (v : α) :
    (m.insertNew k v).get? j = (m.get? j).or (if j = k then some v else none) := by
  rw [insertNew, contains]
  by_cases h : j = k
  · subst h
    cases hj : m.get? j with
    | none => simp [get?_insert]
    | some w => simp [hj]
  · split_ifs with hk
    · simp
    · simp [get?_insert_of_ne m v h]

end OrderedMap

namespace Staging

open ProtoForge.Path Generation

variable {p dir : Path} {names : List String} {parent : String}

/-- A path whose components are names is known by these. -/
theorem canonicalName_of_components (h : p.components = names.map .name) :
    canonicalName p = ofPieces names := by
  rw [canonicalName, h, List.filterMap_map]
  exact congrArg ofPieces List.filterMap_some

/-- A path below a directory is staged under the names that lead there. -/
theorem Staged.nameBelow_of_components (h : p.components = dir.components ++ names.map .name) :
    Staged.nameBelow dir p = ofPieces names := by
  rw [nameBelow]
  cases hstrip : p.stripPrefix? dir with
  | none =>
    have hstart := stripPrefix?_eq_none_iff.mp hstrip
    rw [Bool.eq_false_iff, ne_eq, startsWith_iff, h] at hstart
    exact absurd (List.prefix_append _ _) hstart
  | some r =>
    have hr := components_stripPrefix hstrip
    rw [h, List.drop_left] at hr
    exact canonicalName_of_components hr

theorem Staged.nameBelow_below (hdir : dir.text ≠ "") (hnames : ∀ s ∈ names, IsOrdinary s) :
    Staged.nameBelow dir (dir.below names) = ofPieces names :=
  nameBelow_of_components (components_below hdir hnames)

theorem Staged.nameBelow_self (dir : Path) : Staged.nameBelow dir dir = "" := by
  have hself : dir.components = dir.components ++ ([] : List String).map .name := by simp
  exact nameBelow_of_components hself

/-- The directories above a path, closest first. -/
def namesAbove (p : Path) : List String :=
  ((p.ancestors.drop 1).takeWhile fun q => !q.text.isEmpty).map canonicalName

theorem namesAbove_eq (p : Path) :
    namesAbove p =
      match p.parent? with
      | some q => if q.text = "" then [] else canonicalName q :: namesAbove q
      | none => [] := by
  rw [namesAbove, ancestors_eq, List.drop_one, List.tail_cons]
  cases p.parent? with
  | none => rfl
  | some q =>
    dsimp only
    rw [ancestors_eq, List.takeWhile_cons]
    by_cases hq : q.text = ""
    · simp [hq]
    · rw [if_pos (by simpa using hq), if_neg hq, List.map_cons, namesAbove, ancestors_eq,
        List.drop_one, List.tail_cons]

/-- Above a path of names stand the paths of fewer names. -/
theorem mem_namesAbove (h : p.components = names.map .name) :
    parent ∈ namesAbove p ↔
      ∃ ps rest, ps ≠ [] ∧ rest ≠ [] ∧ names = ps ++ rest ∧ parent = ofPieces ps := by
  induction names using List.reverseRecOn generalizing p with
  | nil =>
    have hnone : p.parent? = none := parent?_eq_none_iff.mpr (Or.inl h)
    rw [namesAbove_eq, hnone]
    simp
  | append_singleton names s ih =>
    obtain ⟨q, hq⟩ : ∃ q, p.parent? = some q := by
      rw [← Option.ne_none_iff_exists', ne_eq, parent?_eq_none_iff, h]
      simp [List.append_eq_singleton_iff]
    have hcomponents : q.components = names.map .name := by
      rw [(components_parent hq).1, h, List.map_append, List.map_singleton, List.dropLast_concat]
    rw [namesAbove_eq, hq]
    dsimp only
    by_cases hempty : q.text = ""
    · obtain rfl : names = [] := by
        rw [components_eq_nil_iff.mpr hempty] at hcomponents
        simpa using hcomponents.symm
      rw [if_pos hempty]
      simp only [List.not_mem_nil, false_iff]
      rintro ⟨ps, rest, hps, hrest, heq, -⟩
      have hlength := congrArg List.length heq
      have hps' := List.length_pos_iff.mpr hps
      have hrest' := List.length_pos_iff.mpr hrest
      simp at hlength
      omega
    · have hne : names ≠ [] := by
        rintro rfl
        exact hempty (components_eq_nil_iff.mp hcomponents)
      rw [if_neg hempty, List.mem_cons, ih hcomponents, canonicalName_of_components hcomponents]
      constructor
      · rintro (rfl | ⟨ps, rest, hps, hrest, rfl, rfl⟩)
        · exact ⟨names, [s], hne, List.cons_ne_nil s [], rfl, rfl⟩
        · exact ⟨ps, rest ++ [s], hps, by simp, by simp, rfl⟩
      · rintro ⟨ps, rest, hps, hrest, heq, rfl⟩
        obtain ⟨rest, t, rfl⟩ := (List.eq_nil_or_concat rest).resolve_left hrest
        rw [List.concat_eq_append, ← List.append_assoc] at heq
        obtain ⟨rfl, -⟩ := List.append_inj' heq rfl
        by_cases hrest : rest = []
        · exact Or.inl (by rw [hrest, List.append_nil])
        · exact Or.inr ⟨ps, rest, hps, hrest, rfl, rfl⟩

theorem View.mem_parentNames (hnames : ∀ s ∈ names, IsOrdinary s) :
    parent ∈ View.parentNames (ofPieces names) ↔
      ∃ ps rest, ps ≠ [] ∧ rest ≠ [] ∧ names = ps ++ rest ∧ parent = ofPieces ps :=
  mem_namesAbove (components_ofNames hnames)

end Staging

end ProtoForge
