import ProtoForge.Proofs.Text.Pieces
import ProtoForge.Text.Blank
import Mathlib.Data.List.DropRight

/-!
# Trimmed texts

Trimming takes blanks off both ends and nothing else, and there is only one way
to do that. So a text without blanks at its ends stays as it is.
-/
namespace ProtoForge.Text

/-- Neither the first nor the last character is a blank. -/
structure IsTrimmed (s : String) : Prop where
  head : ∀ c, s.toList.head? = some c → isBlank c = false
  last : ∀ c, s.toList.getLast? = some c → isBlank c = false

variable {s t between : String} {parts : List String} {before after : List Char}

theorem toList_trim (s : String) :
    (trim s).toList = (s.toList.dropWhile isBlank).rdropWhile isBlank := by
  rw [trim, String.toList_ofList]
  rfl

theorem isTrimmed_trim (s : String) : IsTrimmed (trim s) := by
  constructor <;> intro c hc <;> rw [toList_trim] at hc
  · have hhead : (s.toList.dropWhile isBlank).head? = some c := by
      obtain ⟨rest, hrest⟩ := List.rdropWhile_prefix isBlank (s.toList.dropWhile isBlank)
      rw [← hrest, List.head?_append, hc]
      rfl
    have hstop := List.head?_dropWhile_not isBlank s.toList
    rwa [hhead] at hstop
  · have hne : (s.toList.dropWhile isBlank).rdropWhile isBlank ≠ [] := by
      rintro hnil
      rw [hnil] at hc
      cases hc
    have hstop := List.rdropWhile_last_not isBlank _ hne
    rw [List.getLast?_eq_some_getLast hne, Option.some.injEq] at hc
    rwa [hc, Bool.not_eq_true] at hstop

/-- Trimming takes off blanks only. -/
theorem exists_trim (s : String) :
    ∃ before after : List Char, (∀ c ∈ before, isBlank c) ∧ (∀ c ∈ after, isBlank c) ∧
      s.toList = before ++ (trim s).toList ++ after := by
  refine ⟨s.toList.takeWhile isBlank, (s.toList.dropWhile isBlank).rtakeWhile isBlank,
    fun c => List.mem_takeWhile_imp, fun c => List.mem_rtakeWhile_imp, ?_⟩
  rw [toList_trim, List.append_assoc, List.rdropWhile_append_rtakeWhile,
    List.takeWhile_append_dropWhile]

/-- What is taken off does not matter: a trimmed text between blanks is what trimming leaves. -/
theorem trim_eq_of_blanks (ht : IsTrimmed t) (hbefore : ∀ c ∈ before, isBlank c)
    (hafter : ∀ c ∈ after, isBlank c) (hs : s.toList = before ++ t.toList ++ after) :
    trim s = t := by
  have hleft : s.toList.dropWhile isBlank = (t.toList ++ after).dropWhile isBlank := by
    rw [hs, List.append_assoc, List.dropWhile_append_of_pos hbefore]
  rw [← String.toList_inj, toList_trim, hleft]
  cases hchars : t.toList with
  | nil =>
    rw [List.nil_append, List.dropWhile_eq_nil_iff.mpr hafter]
    rfl
  | cons c cs =>
    have hc : ¬ isBlank c = true := by simpa using ht.head c (by rw [hchars]; rfl)
    have hlast : (c :: cs).rdropWhile isBlank = c :: cs := by
      refine List.rdropWhile_eq_self_iff.mpr fun hne => ?_
      simpa using ht.last _ (by rw [hchars]; exact List.getLast?_eq_some_getLast hne)
    have hright : ∀ l : List Char, (l ++ after).rdropWhile isBlank = l.rdropWhile isBlank := by
      intro l
      rw [List.rdropWhile, List.reverse_append,
        List.dropWhile_append_of_pos (by simpa using hafter), List.rdropWhile]
    rw [List.cons_append, List.dropWhile_cons_of_neg hc, ← List.cons_append, hright, hlast]

theorem trim_eq_iff : trim s = t ↔ IsTrimmed t ∧ ∃ before after : List Char,
    (∀ c ∈ before, isBlank c) ∧ (∀ c ∈ after, isBlank c) ∧
      s.toList = before ++ t.toList ++ after := by
  constructor
  · rintro rfl
    exact ⟨isTrimmed_trim s, exists_trim s⟩
  · rintro ⟨ht, before, after, hbefore, hafter, hs⟩
    exact trim_eq_of_blanks ht hbefore hafter hs

theorem trim_eq_self (h : IsTrimmed s) : trim s = s :=
  trim_eq_iff.mpr ⟨h, [], [], by simp, by simp, by simp⟩

theorem IsTrimmed.append (hs : IsTrimmed s) (ht : IsTrimmed t) (hsne : s ≠ "") (htne : t ≠ "") :
    IsTrimmed (s ++ between ++ t) := by
  have hschars : s.toList ≠ [] := mt String.toList_eq_nil_iff.mp hsne
  have htchars : t.toList ≠ [] := mt String.toList_eq_nil_iff.mp htne
  constructor <;> intro c hc <;> rw [String.toList_append, String.toList_append] at hc
  · rw [List.append_assoc, List.head?_append_of_ne_nil _ hschars] at hc
    exact hs.head c hc
  · rw [List.getLast?_append_of_ne_nil _ htchars] at hc
    exact ht.last c hc

theorem intercalate_ne_empty (hs : s ∈ parts) (hne : s ≠ "") : between.intercalate parts ≠ "" := by
  obtain ⟨c, hc⟩ := List.exists_mem_of_ne_nil _ (mt String.toList_eq_nil_iff.mp hne)
  intro hempty
  have hmem : c ∈ (between.intercalate parts).toList := mem_intercalate_of_mem hs hc
  simp [hempty] at hmem

/-- Whatever stands between trimmed texts, they are trimmed together. -/
theorem isTrimmed_intercalate (h : ∀ s ∈ parts, s ≠ "" ∧ IsTrimmed s) :
    IsTrimmed (between.intercalate parts) := by
  induction parts with
  | nil => constructor <;> simp
  | cons s rest ih =>
    obtain ⟨⟨hsne, hs⟩, hrest⟩ := List.forall_mem_cons.mp h
    cases rest with
    | nil => simpa using hs
    | cons t rest =>
      rw [String.intercalate_cons_cons]
      exact hs.append (ih hrest) hsne
        (intercalate_ne_empty List.mem_cons_self (hrest t List.mem_cons_self).1)

end ProtoForge.Text
