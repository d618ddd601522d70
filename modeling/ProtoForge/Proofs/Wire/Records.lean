import ProtoForge.Proofs.Wire.Reading

/-!
# Records by their fields

An ascending record is known by the values of each of its fields. Storing a
value keeps a record ascending and changes the values of one field: a repeated
field has one more, any other field has the new value alone.
-/
namespace ProtoForge.Wire

namespace Record

variable {r r' : Record} {e : ℕ × Value} {n k : ℕ} {v : Value}

/-- The entries ascend by their numbers. -/
def IsSorted (r : Record) : Prop := r.Pairwise fun e e' => e.1 ≤ e'.1

@[simp] theorem all_nil (k : ℕ) : all [] k = [] := rfl

theorem all_cons (e : ℕ × Value) (r : Record) (k : ℕ) :
    all (e :: r) k = if e.1 = k then e.2 :: r.all k else r.all k := by
  split_ifs with h <;> simp [all, h]

@[simp] theorem all_append (r r' : Record) (k : ℕ) : all (r ++ r') k = r.all k ++ r'.all k :=
  List.filterMap_append

@[simp] theorem all_map {α : Type} (n : ℕ) (g : α → Value) (xs : List α) (k : ℕ) :
    all (xs.map fun x => (n, g x)) k = if n = k then xs.map g else [] := by
  induction xs with
  | nil => simp
  | cons x xs ih =>
    rw [List.map_cons, all_cons, ih]
    split_ifs <;> rfl

theorem all_eq_nil_iff : r.all k = [] ↔ ∀ e ∈ r, e.1 ≠ k := by simp [all]

theorem all_filter_ne (r : Record) (n k : ℕ) :
    all (r.filter (·.1 ≠ n)) k = if n = k then [] else r.all k := by
  induction r with
  | nil => simp
  | cons e r ih =>
    by_cases hn : e.1 = n
    · rw [List.filter_cons_of_neg (by simpa using hn), ih, all_cons, hn]
      split_ifs <;> rfl
    · rw [List.filter_cons_of_pos (by simpa using hn), all_cons, ih, all_cons]
      split_ifs with hk hnk
      · exact absurd (hk.trans hnk.symm) hn
      all_goals rfl

theorem isSorted_map {α : Type} (n : ℕ) (g : α → Value) (xs : List α) :
    IsSorted (xs.map fun x => (n, g x)) := by
  simp [IsSorted, List.pairwise_map, List.pairwise_of_forall]

theorem IsSorted.append (h : r.IsSorted) (h' : r'.IsSorted)
    (hcross : ∀ e ∈ r, ∀ e' ∈ r', e.1 ≤ e'.1) : IsSorted (r ++ r') :=
  List.pairwise_append.mpr ⟨h, h', hcross⟩

theorem IsSorted.filter (h : r.IsSorted) (p : ℕ × Value → Bool) : IsSorted (r.filter p) :=
  List.Pairwise.filter p h

theorem le_of_mem_takeWhile (he : e ∈ r.takeWhile (·.1 ≤ n)) : e.1 ≤ n := by
  simpa using List.mem_takeWhile_imp he

theorem IsSorted.lt_of_mem_dropWhile (h : r.IsSorted) (he : e ∈ r.dropWhile (·.1 ≤ n)) :
    n < e.1 := by
  induction r with
  | nil => simp at he
  | cons e' r ih =>
    obtain ⟨hfirst, hrest⟩ := List.pairwise_cons.mp h
    by_cases hle : e'.1 ≤ n
    · rw [List.dropWhile_cons_of_pos (by simpa using hle)] at he
      exact ih hrest he
    · rw [List.dropWhile_cons_of_neg (by simpa using hle)] at he
      rcases List.mem_cons.mp he with rfl | he
      · exact not_le.mp hle
      · exact (not_le.mp hle).trans_le (hfirst e he)

theorem IsSorted.push (h : r.IsSorted) (n : ℕ) (v : Value) : (r.push n v).IsSorted := by
  have hhigh := fun e => h.lt_of_mem_dropWhile (n := n) (e := e)
  refine IsSorted.append (h.sublist (List.takeWhile_sublist _)) ?_ fun e he e' he' => ?_
  · exact List.pairwise_cons.mpr
      ⟨fun e he => (hhigh e he).le, h.sublist (List.dropWhile_sublist _)⟩
  · rcases List.mem_cons.mp he' with rfl | he'
    · exact le_of_mem_takeWhile he
    · exact (le_of_mem_takeWhile he).trans (hhigh e' he').le

theorem all_push (h : r.IsSorted) (n : ℕ) (v : Value) (k : ℕ) :
    (r.push n v).all k = if n = k then r.all k ++ [v] else r.all k := by
  have hsplit : r.all k = all (r.takeWhile (·.1 ≤ n)) k ++ all (r.dropWhile (·.1 ≤ n)) k := by
    rw [← all_append, List.takeWhile_append_dropWhile]
  rw [push, all_append, all_cons, hsplit]
  split_ifs with hk
  · have hnone : all (r.dropWhile (·.1 ≤ n)) k = [] :=
      all_eq_nil_iff.mpr fun e he => hk ▸ (h.lt_of_mem_dropWhile he).ne'
    simp [hnone]
  · rfl

theorem IsSorted.set (h : r.IsSorted) (n : ℕ) (v : Value) : (r.set n v).IsSorted :=
  (h.filter _).push n v

theorem all_set (h : r.IsSorted) (n : ℕ) (v : Value) (k : ℕ) :
    (r.set n v).all k = if n = k then [v] else r.all k := by
  rw [Record.set, all_push (h.filter _), all_filter_ne]
  split_ifs <;> rfl

/-- The first number of an ascending record is the least one with a value. -/
theorem IsSorted.head_le (h : IsSorted (e :: r)) (hk : all (e :: r) k ≠ []) : e.1 ≤ k := by
  obtain ⟨e', he', rfl⟩ : ∃ e' ∈ e :: r, e'.1 = k := by
    simpa only [ne_eq, all_eq_nil_iff, not_forall, not_not, exists_prop] using hk
  rcases List.mem_cons.mp he' with rfl | he'
  · exact le_rfl
  · exact List.rel_of_pairwise_cons h he'

/-- Ascending records with the same values of every field are the same. -/
theorem IsSorted.ext (h : r.IsSorted) (h' : r'.IsSorted) (hall : ∀ k, r.all k = r'.all k) :
    r = r' := by
  induction r generalizing r' with
  | nil =>
    cases r' with
    | nil => rfl
    | cons e' r' => simpa [all_cons] using hall e'.1
  | cons e r ih =>
    cases r' with
    | nil => simpa [all_cons] using hall e.1
    | cons e' r' =>
      have hle : e.1 ≤ e'.1 := h.head_le (by simp [hall, all_cons])
      have hge : e'.1 ≤ e.1 := h'.head_le (by simp [← hall, all_cons])
      have hnumber : e.1 = e'.1 := le_antisymm hle hge
      have hvalue : e.2 = e'.2 := by
        have := hall e.1
        rw [all_cons, all_cons, if_pos rfl, if_pos hnumber.symm] at this
        exact (List.cons.inj this).1
      have hrest : r = r' := by
        refine ih h.of_cons h'.of_cons fun k => ?_
        have := hall k
        rw [all_cons, all_cons, hnumber, hvalue] at this
        split_ifs at this
        · exact (List.cons.inj this).2
        · exact this
      rw [hrest, Prod.ext hnumber hvalue]

end Record

/-- What a field holds after later values: a repeated field adds them, another has the last. -/
def Label.gather {α : Type} (l : Label) (earlier later : List α) : List α :=
  if l = .repeated then earlier ++ later else later.getLast?.elim earlier fun v => [v]

namespace Label

variable {α : Type} {l : Label}

theorem gather_nil (l : Label) (earlier : List α) : l.gather earlier [] = earlier := by
  simp [gather]

theorem gather_cons (l : Label) (earlier : List α) (v : α) (later : List α) :
    l.gather earlier (v :: later) = l.gather (l.gather earlier [v]) later := by
  by_cases h : l = .repeated
  · simp [gather, h]
  · cases hlater : later.getLast? <;> simp [gather, h, hlater, List.getLast?_cons]

theorem gather_of_repeated (h : l = .repeated) (earlier later : List α) :
    l.gather earlier later = earlier ++ later := if_pos h

theorem gather_singleton (h : l ≠ .repeated) (earlier : List α) (v : α) :
    l.gather earlier [v] = [v] := if_neg h

/-- At most one value takes the place of those that were there. -/
theorem gather_of_single (h : l ≠ .repeated) {earlier later : List α} (hlater : later.length ≤ 1)
    (hearlier : later = [] → earlier = []) : l.gather earlier later = later := by
  rw [gather, if_neg h]
  match later, hlater with
  | [], _ => exact hearlier rfl
  | [v], _ => rfl

end Label

namespace Record

variable {r : Record}

theorem IsSorted.store (h : r.IsSorted) (f : Field) (v : Value) : (r.store f v).IsSorted := by
  rw [Record.store]
  split
  · exact h.push _ v
  · exact h.set _ v

theorem all_store (h : r.IsSorted) (f : Field) (v : Value) (k : ℕ) :
    (r.store f v).all k = if f.number = k then f.label.gather (r.all k) [v] else r.all k := by
  rw [store, Label.gather]
  split
  · rename_i hlabel
    rw [all_push h, if_pos hlabel]
  · rename_i hlabel
    rw [all_set h, if_neg hlabel]
    rfl

end Record

end ProtoForge.Wire
