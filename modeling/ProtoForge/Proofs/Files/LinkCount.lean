import ProtoForge.Proofs.Files.Scratch
import Mathlib.Data.Set.Card

/-!
# Counting links

No operation on files makes a link; at most it moves one or takes one away. So
the number of links never grows, and a link that is lost does not come back.
-/
namespace ProtoForge.Files

namespace Disk

/-- Where links lie. -/
def linkSpots (d : Disk) : Set Location := {l | ∃ t, d.get? l = some (.link t)}

/-- How many links there are. -/
noncomputable def linkCount (d : Disk) : ℕ := d.linkSpots.ncard

variable {d e : Disk} {l k : Location} {x : Entry} {y : Option Entry} {p q : Path} {s t : String}

theorem mem_linkSpots : l ∈ d.linkSpots ↔ ∃ t, d.get? l = some (.link t) := Iff.rfl

theorem finite_linkSpots (d : Disk) : d.linkSpots.Finite := by
  refine (d.entries.map Prod.fst).finite_toSet.subset ?_
  rintro l ⟨t, ht⟩
  have hl : l ≠ [] := by
    rintro rfl
    simp [get?] at ht
  exact mem_entries_of_isSome hl (by simp [ht])

theorem SameTree.linkCount_eq (h : d.SameTree e) : e.linkCount = d.linkCount := by
  simp only [linkCount, linkSpots, h.entries]

/-- A change that puts no link anywhere. -/
theorem linkSpots_subset_of_update (hget : e.get? = Function.update d.get? l y)
    (hy : ∀ t, y ≠ some (.link t)) : e.linkSpots ⊆ d.linkSpots \ {l} := by
  rintro k ⟨t, ht⟩
  rw [hget] at ht
  by_cases hk : k = l
  · rw [hk, Function.update_self] at ht
    exact absurd ht (hy t)
  · rw [Function.update_of_ne hk] at ht
    exact ⟨⟨t, ht⟩, hk⟩

theorem linkCount_le_of_update (hget : e.get? = Function.update d.get? l y)
    (hy : ∀ t, y ≠ some (.link t)) : e.linkCount ≤ d.linkCount :=
  Set.ncard_le_ncard ((linkSpots_subset_of_update hget hy).trans Set.sdiff_subset)
    d.finite_linkSpots

/-- Something that is no link in place of a link leaves fewer links. -/
theorem linkCount_lt_of_update (hget : e.get? = Function.update d.get? l y)
    (hy : ∀ t, y ≠ some (.link t)) (hl : d.get? l = some (.link t)) :
    e.linkCount < d.linkCount :=
  (Set.ncard_le_ncard (linkSpots_subset_of_update hget hy) d.finite_linkSpots.sdiff).trans_lt
    (Set.ncard_sdiff_singleton_lt_of_mem ⟨t, hl⟩ d.finite_linkSpots)

theorem linkCount_erase_le (d : Disk) (l : Location) : (d.erase l).linkCount ≤ d.linkCount := by
  by_cases hl : l = []
  · refine Set.ncard_le_ncard ?_ d.finite_linkSpots
    rintro k ⟨t, ht⟩
    have hk : k ≠ [] := by
      rintro rfl
      simp [get?] at ht
    rw [get?, if_neg hk, erase, hl, lookup_filter_ne hk] at ht
    exact ⟨t, by rw [get?, if_neg hk, ht]⟩
  · exact linkCount_le_of_update (get?_erase_eq hl) (by simp)

/-- Moving something leaves no more links than before. -/
theorem linkCount_le_of_moved (hne : l ≠ []) (hl : d.get? l = some x)
    (hget : e.get? = Function.update (Function.update d.get? l none) k (some x)) :
    e.linkCount ≤ d.linkCount := by
  by_cases hx : ∃ t, x = .link t
  · obtain ⟨t, rfl⟩ := hx
    have hsub : e.linkSpots ⊆ insert k (d.linkSpots \ {l}) := by
      rintro j ⟨u, hu⟩
      by_cases hjk : j = k
      · exact Set.mem_insert_iff.mpr (Or.inl hjk)
      rw [hget, Function.update_of_ne hjk] at hu
      by_cases hjl : j = l
      · simp [hjl] at hu
      · rw [Function.update_of_ne hjl] at hu
        exact Set.mem_insert_of_mem k ⟨⟨u, hu⟩, hjl⟩
    calc e.linkCount ≤ (insert k (d.linkSpots \ {l})).ncard :=
          Set.ncard_le_ncard hsub (d.finite_linkSpots.sdiff.insert k)
      _ ≤ (d.linkSpots \ {l}).ncard + 1 := Set.ncard_insert_le k _
      _ = d.linkCount := Set.ncard_sdiff_singleton_add_one ⟨t, hl⟩ d.finite_linkSpots
  · have hplain : ∀ t, some x ≠ some (Entry.link t) := fun t ht => hx ⟨t, Option.some.inj ht⟩
    rw [← get?_erase_eq hne] at hget
    exact (linkCount_le_of_update hget hplain).trans (d.linkCount_erase_le l)

end Disk

open Disk

variable {d : Disk}

theorem neverRaises_makeDirectory (p : Path) : NeverRaises linkCount (makeDirectory p) := by
  intro d
  rw [outcome_makeDirectory]
  cases hnew : d.newEntry p with
  | error e => exact le_rfl
  | ok l =>
    obtain ⟨-, hl⟩ := newEntry_eq_ok_iff.mp hnew
    exact linkCount_le_of_update (get?_put_eq (ne_nil_of_get?_eq_none hl) _) (by simp)

theorem neverRaises_removeFile (p : Path) : NeverRaises linkCount (removeFile p) := by
  intro d
  rw [outcome_removeFile]
  cases d.removable p with
  | error e => exact le_rfl
  | ok l => exact d.linkCount_erase_le l

theorem neverRaises_removeDirectory (p : Path) : NeverRaises linkCount (removeDirectory p) := by
  intro d
  rw [outcome_removeDirectory]
  cases d.removableDirectory p with
  | error e => exact le_rfl
  | ok l => exact d.linkCount_erase_le l

theorem neverRaises_moveFile (p q : Path) : NeverRaises linkCount (moveFile p q) := by
  intro d
  rw [outcome_moveFile]
  cases hmove : d.movable p q with
  | error e => exact le_rfl
  | ok lkx =>
    obtain ⟨l, k, x⟩ := lkx
    obtain ⟨⟨parent, s, -, rfl⟩, hk, hl, -, -⟩ := movable_spec hmove
    dsimp only
    split_ifs
    · exact le_rfl
    · have hget : ((d.erase (parent ++ [s])).put k x).get? =
          Function.update (Function.update d.get? (parent ++ [s]) none) k (some x) := by
        rw [get?_put_eq hk.ne_nil, get?_erase_eq (by simp)]
      exact linkCount_le_of_moved (by simp) hl hget

theorem neverRaises_makeScratch (dir : Path) (stem : String) (b : Bytes) :
    NeverRaises linkCount (makeScratch dir stem b) := by
  intro d
  rw [outcome_makeScratch]
  cases d.locate dir true with
  | error e => exact le_rfl
  | ok l =>
    dsimp only
    cases hnew : d.newEntry ((d.absolutize dir).join ⟨d.freshName l stem⟩) with
    | error e => exact le_rfl
    | ok new =>
      obtain ⟨-, hnone⟩ := newEntry_eq_ok_iff.mp hnew
      exact linkCount_le_of_update (get?_put_eq (ne_nil_of_get?_eq_none hnone) _) (by simp)

end ProtoForge.Files
