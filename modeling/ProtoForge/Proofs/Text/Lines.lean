import Mathlib
import ProtoForge.Text.Lines

/-!
# Lines read back

Lines have no line feed of their own. A text of lines that are each ended by a
line feed has these lines again, except that a carriage return at the end of
one now belongs to the end.
-/
namespace ProtoForge.Text

variable {xs line rest : List Char} {ls : List (List Char)} {l s : String} {texts : List String}

/-- A line without the carriage return at its end, if there is one. -/
def withoutReturn (line : String) : String := String.ofList (dropReturn line.toList)

/-- A line that ends is followed by the lines of the rest. -/
theorem splitLines_append (h : '\n' ∉ xs) (line rest : List Char) :
    splitLines line (xs ++ '\n' :: rest) = dropReturn (line.reverse ++ xs) :: splitLines [] rest := by
  induction xs generalizing line with
  | nil => simp [splitLines]
  | cons x xs ih =>
    rw [List.mem_cons, not_or] at h
    rw [List.cons_append, splitLines, if_neg (Ne.symm h.1), ih h.2]
    simp

theorem splitLines_flatMap (h : ∀ l ∈ ls, '\n' ∉ l) :
    splitLines [] (ls.flatMap (· ++ ['\n'])) = ls.map dropReturn := by
  induction ls with
  | nil => rfl
  | cons l ls ih =>
    obtain ⟨hl, hls⟩ := List.forall_mem_cons.mp h
    rw [List.flatMap_cons, List.append_assoc, List.singleton_append, splitLines_append hl, ih hls]
    rfl

theorem dropReturn_sublist (line : List Char) : (dropReturn line).Sublist line := by
  rw [dropReturn]
  split_ifs
  · exact List.dropLast_sublist line
  · exact List.Sublist.refl line

/-- A line is as it was without its return, or it had one. -/
theorem dropReturn_cases (line : List Char) :
    dropReturn line = line ∨ line = dropReturn line ++ ['\r'] := by
  rw [dropReturn]
  split_ifs with h
  · exact Or.inr (List.dropLast_append_getLast? '\r' h).symm
  · exact Or.inl rfl

theorem not_mem_of_mem_splitLines (hline : '\n' ∉ line) (h : xs ∈ splitLines line rest) :
    '\n' ∉ xs := by
  induction rest generalizing line with
  | nil =>
    rw [splitLines] at h
    split_ifs at h
    · cases h
    · obtain rfl := List.mem_singleton.mp h
      rwa [List.mem_reverse]
  | cons c rest ih =>
    rw [splitLines] at h
    split_ifs at h with hc
    · rcases List.mem_cons.mp h with rfl | h
      · exact fun hmem => hline (List.mem_reverse.mp ((dropReturn_sublist _).subset hmem))
      · exact ih List.not_mem_nil h
    · refine ih ?_ h
      rw [List.mem_cons, not_or]
      exact ⟨Ne.symm hc, hline⟩

theorem not_mem_of_mem_lines (h : l ∈ lines s) : '\n' ∉ l.toList := by
  obtain ⟨xs, hxs, rfl⟩ := List.mem_map.mp h
  rw [String.toList_ofList]
  exact not_mem_of_mem_splitLines List.not_mem_nil hxs

theorem toList_unlines (texts : List String) :
    (unlines texts).toList = (texts.map String.toList).flatMap (· ++ ['\n']) := by
  simp [unlines, String.toList_join, List.flatMap_map]

/-- Lines that are each ended by a line feed. -/
theorem lines_unlines (h : ∀ t ∈ texts, '\n' ∉ t.toList) :
    lines (unlines texts) = texts.map withoutReturn := by
  have hall : ∀ l ∈ texts.map String.toList, '\n' ∉ l := by
    intro l hl
    obtain ⟨t, ht, rfl⟩ := List.mem_map.mp hl
    exact h t ht
  rw [lines, toList_unlines, splitLines_flatMap hall, List.map_map, List.map_map]
  rfl

theorem intercalate_newline (h : texts ≠ []) : "\n".intercalate texts ++ "\n" = unlines texts := by
  induction texts with
  | nil => exact absurd rfl h
  | cons t texts ih =>
    by_cases hrest : texts = []
    · subst hrest
      simp [unlines]
    · rw [String.intercalate_cons_of_ne_nil hrest, String.append_assoc, ih hrest]
      simp [unlines, String.append_assoc]

end ProtoForge.Text
