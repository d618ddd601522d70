import ProtoForge.Proofs.Files.CanonicalPaths
import Mathlib

/-!
# The texts of canonical paths

What is written in a canonical path: joining, going below and cutting off a start
work on its text as they do on the names of its location.
-/
namespace ProtoForge

theorem endsWith_iff_isSuffix {s t : String} : s.endsWith t = true ↔ t.toList <:+ s.toList := by
  rw [endsWith_iff]
  constructor
  · rintro ⟨u, rfl⟩
    rw [String.toList_append]
    exact List.suffix_append _ _
  · rintro ⟨u, hu⟩
    exact ⟨String.ofList u, by rw [← String.toList_inj, ← hu]; simp⟩

namespace Path

variable {l names ps : List String} {s : String}

theorem isSuffix_ofPieces (ps : List String) (s : String) :
    s.toList <:+ (ofPieces (ps ++ [s])).toList := by
  by_cases hps : ps = []
  · subst hps
    exact List.suffix_rfl
  · rw [Generation.ofPieces_append hps (List.cons_ne_nil s [])]
    exact ⟨(ofPieces ps ++ "/").toList, by simp [ofPieces]⟩

theorem dropSteps_names (hl : ∀ s ∈ l ++ names, IsOrdinary s) :
    dropSteps l.length (l ++ names) = names := by
  induction l with
  | nil =>
    cases names with
    | nil => rfl
    | cons s rest =>
      rw [List.nil_append, List.length_nil, dropSteps, List.dropWhile_cons_of_neg]
      simp [(hl s (by simp)).moves]
  | cons s rest ih =>
    have hs := (hl s (by simp)).moves
    rw [List.cons_append, List.length_cons, dropSteps, List.dropWhile_cons_of_neg (by simp [hs])]
    exact ih fun t ht => hl t (List.mem_cons_of_mem s ht)

theorem trimEnd_names (hnames : ∀ s ∈ names, IsOrdinary s) : trimEnd names = names := by
  obtain ⟨idle, hsplit, hidle⟩ := trimEnd_append names
  have hnone : idle = [] := List.eq_nil_iff_forall_not_mem.mpr fun s hs => by
    have hmem : s ∈ names := hsplit ▸ List.mem_append_right _ hs
    simpa [(hnames s hmem).moves] using hidle s hs
  rw [hnone, List.append_nil] at hsplit
  exact hsplit.symm

end Path

namespace Files.Disk

variable {l names : List String} {s : String}

theorem isAbsolute_pathOf (l : Location) : (pathOf l).isAbsolute = true := by
  rw [Path.isAbsolute, String.startsWith_string_iff]
  exact ⟨("/".intercalate l).toList, by simp [pathOf]⟩

theorem absolutize_pathOf (d : Disk) (l : Location) : d.absolutize (pathOf l) = pathOf l :=
  if_pos (isAbsolute_pathOf l)

theorem pieces_pathOf (hl : ∀ s ∈ l, Path.IsOrdinary s) (hne : l ≠ []) :
    Path.pieces (pathOf l).text = "" :: l := by
  have h := Path.pieces_append "" (Path.ofPieces l)
  rwa [String.empty_append, Path.pieces_empty, Path.pieces_ofNames hne hl] at h

theorem endsWith_slash_pathOf (hl : ∀ s ∈ l, Path.IsOrdinary s) (hne : l ≠ []) :
    (pathOf l).text.endsWith "/" = false := by
  rw [Bool.eq_false_iff]
  intro hslash
  obtain ⟨u, hu⟩ := endsWith_iff.mp hslash
  have hpieces : "" :: l = Path.pieces u ++ [""] := by
    rw [← pieces_pathOf hl hne, hu, ← Path.pieces_empty, ← Path.pieces_append, String.append_empty]
  have hlast : l.getLast? = some "" := by
    rw [← List.getLast?_append_of_ne_nil [""] hne, List.singleton_append, hpieces, List.getLast?_concat]
  exact (hl "" (List.mem_of_getLast? hlast)).ne_empty rfl

/-- A path below a canonical one is written after it and a slash. -/
theorem text_join_pathOf (hl : ∀ s ∈ l, Path.IsOrdinary s) (hne : l ≠ []) {q : Path}
    (hq : q.isAbsolute = false) : ((pathOf l).join q).text = (pathOf l).text ++ "/" ++ q.text := by
  have htext : (pathOf l).text ≠ "" := by simp [pathOf]
  rw [Path.join, if_neg (by simp [hq]), if_neg (by simp [endsWith_slash_pathOf hl hne, htext])]

/-- A name below a canonical path makes a longer one. -/
theorem join_pathOf (hl : ∀ s ∈ l, Path.IsOrdinary s) (hs : Path.IsOrdinary s) :
    (pathOf l).join ⟨s⟩ = pathOf (l ++ [s]) := by
  have hrelative := Path.isAbsolute_eq_false hs.no_slash
  by_cases hnil : l = []
  · rw [hnil, Path.join, if_neg (by simp [hrelative]), if_pos (by cbv)]
    rfl
  · change Path.mk ((pathOf l).join ⟨s⟩).text = ⟨"/" ++ Path.ofPieces (l ++ [s])⟩
    rw [text_join_pathOf hl hnil hrelative, Generation.ofPieces_append hnil (List.cons_ne_nil s []),
      ← String.append_assoc, ← String.append_assoc]
    rfl

theorem below_pathOf (hl : ∀ s ∈ l ++ names, Path.IsOrdinary s) :
    (pathOf l).below names = pathOf (l ++ names) := by
  induction names generalizing l with
  | nil => simp [Path.below]
  | cons s rest ih =>
    have hfirst := fun t ht => hl t (List.mem_append_left _ ht)
    have hs := hl s (by simp)
    rw [List.append_cons] at hl ⊢
    rw [← ih hl, ← join_pathOf hfirst hs]
    rfl

/-- A canonical path is cut at its slashes into the root and the names of its location. -/
theorem split_pathOf (hl : ∀ s ∈ l, Path.IsOrdinary s) (hne : l ≠ []) :
    (pathOf l).split = (.root, l) := by
  rw [Path.split_eq_startAndBody, pieces_pathOf hl hne, Path.startAndBody_root _ hne]

/-- The parent of a canonical path lacks its last name. -/
theorem parent?_pathOf (hl : ∀ t ∈ l ++ [s], Path.IsOrdinary t) :
    (pathOf (l ++ [s])).parent? = some (pathOf l) := by
  have hbody : (Path.trimEnd (l ++ [s])).reverse = s :: l.reverse := by
    rw [Path.trimEnd_names hl, List.reverse_concat]
  rw [Path.parent?, split_pathOf hl (by simp)]
  simp only [hbody, List.reverse_reverse, Path.trimEnd_names fun t ht => hl t (List.mem_append_left _ ht)]
  rfl

/-- What is cut off from a canonical path leaves the names below. -/
theorem stripPrefix?_pathOf (hl : ∀ s ∈ l ++ names, Path.IsOrdinary s) (hne : names ≠ []) :
    (pathOf (l ++ names)).stripPrefix? (pathOf l) = some (.ofNames names) := by
  have hsplit : (pathOf (l ++ names)).split = (.root, l ++ names) := split_pathOf hl (by simp [hne])
  have hused : (pathOf l).components.length = l.length + 1 := by
    rw [components_pathOf fun s hs => hl s (List.mem_append_left _ hs)]
    simp
  have hstart : (pathOf (l ++ names)).startsWith (pathOf l) = true := by
    rw [Path.startsWith_iff, components_pathOf hl,
      components_pathOf fun s hs => hl s (List.mem_append_left _ hs), List.map_append]
    exact List.cons_prefix_cons.mpr ⟨rfl, List.prefix_append _ _⟩
  rw [Path.stripPrefix?, if_pos hstart, hsplit]
  dsimp only
  rw [if_neg (by simp [hused]), hused]
  change some (Path.mk (Path.ofPieces (Path.trimEnd (Path.dropSteps l.length (l ++ names))))) = _
  rw [Path.dropSteps_names hl, Path.trimEnd_names fun s hs => hl s (List.mem_append_right _ hs)]
  rfl

end Files.Disk

end ProtoForge
