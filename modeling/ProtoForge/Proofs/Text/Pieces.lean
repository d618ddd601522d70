import ProtoForge.Text.Pieces

/-!
# Pieces put together again

A text is its pieces with the separator between them, and it is cut into the
same pieces again. The pieces are the only ones of this kind: no separator is
left in any of them.
-/
namespace ProtoForge.Text

variable {separator c : Char} {between s t : String} {parts : List String}

/-- What is written in joined texts is written in one of them, or between two. -/
theorem mem_intercalate (h : c ∈ (between.intercalate parts).toList) :
    c ∈ between.toList ∨ ∃ s ∈ parts, c ∈ s.toList := by
  induction parts with
  | nil => simp at h
  | cons s rest ih =>
    cases rest with
    | nil => exact Or.inr ⟨s, List.mem_cons_self, by simpa using h⟩
    | cons t rest =>
      rw [String.intercalate_cons_cons, String.toList_append, String.toList_append,
        List.append_assoc] at h
      rcases List.mem_append.mp h with hs | h
      · exact Or.inr ⟨s, List.mem_cons_self, hs⟩
      rcases List.mem_append.mp h with hbetween | h
      · exact Or.inl hbetween
      · refine (ih h).imp_right ?_
        rintro ⟨u, hu, hc⟩
        exact ⟨u, List.mem_cons_of_mem s hu, hc⟩

theorem mem_intercalate_of_mem (hs : s ∈ parts) (hc : c ∈ s.toList) :
    c ∈ (between.intercalate parts).toList := by
  induction parts with
  | nil => cases hs
  | cons t rest ih =>
    cases rest with
    | nil =>
      obtain rfl := List.mem_singleton.mp hs
      simpa using hc
    | cons u rest =>
      rw [String.intercalate_cons_cons, String.toList_append]
      rcases List.mem_cons.mp hs with rfl | hs
      · simp [hc]
      · exact List.mem_append_right _ (ih hs)

theorem intercalate_pieces (separator : Char) (s : String) :
    (String.singleton separator).intercalate (pieces separator s) = s := by
  rw [← String.toList_inj, String.toList_intercalate, pieces, List.map_map]
  simp [Function.comp_def]

theorem not_mem_of_mem_splitOn {cs : List Char} : ∀ l ∈ cs.splitOn c, c ∉ l := by
  induction cs with
  | nil => simp
  | cons x xs ih =>
    rw [List.splitOn_cons_eq_if_modifyHead]
    by_cases hx : x = c
    · simpa [hx] using ih
    · have hne : (x == c) = false := by simpa using hx
      rw [hne, if_neg Bool.false_ne_true]
      intro l hl
      cases hsplit : xs.splitOn c with
      | nil => exact absurd hsplit (List.splitOn_ne_nil c xs)
      | cons y ys =>
        rw [hsplit] at hl ih
        rcases List.mem_cons.mp hl with rfl | hl
        · simpa [Ne.symm hx] using ih y List.mem_cons_self
        · exact ih l (List.mem_cons_of_mem _ hl)

theorem not_mem_of_mem_pieces (h : s ∈ pieces separator t) : separator ∉ s.toList := by
  obtain ⟨l, hl, rfl⟩ := List.mem_map.mp h
  simpa using not_mem_of_mem_splitOn l hl

/-- Joining pieces and cutting again gives them back. -/
theorem pieces_intercalate (h : ∀ s ∈ parts, separator ∉ s.toList) (hne : parts ≠ []) :
    pieces separator ((String.singleton separator).intercalate parts) = parts := by
  have hsplit : ([separator].intercalate (parts.map String.toList)).splitOn separator =
      parts.map String.toList :=
    List.splitOn_intercalate separator (by simpa using h) (by simpa using hne)
  rw [pieces, String.toList_intercalate, String.toList_singleton, hsplit, List.map_map]
  simp [Function.comp_def]

/-- The characters of a piece are characters of the text. -/
theorem mem_of_mem_pieces (hs : s ∈ pieces separator t) (hc : c ∈ s.toList) : c ∈ t.toList := by
  rw [← intercalate_pieces separator t]
  exact mem_intercalate_of_mem hs hc

end ProtoForge.Text
