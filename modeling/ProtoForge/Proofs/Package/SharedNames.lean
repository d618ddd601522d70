import ProtoForge.Package.Coordinate
import ProtoForge.Proofs.Files.Steps

/-!
# Coordinates that share a name

The parts of a coordinate that was read have no colon, so the colons of a full
name tell where group and artifact end. A dash, though, is no such mark: it
joins the classifier, and it may occur in every part. Full names are the same
just if the front of a classifier moved over its dash.
-/
namespace ProtoForge.Package.Coordinate

/-- A coordinate as texts give it: no part has a colon. -/
structure IsParsed (c : Coordinate) : Prop where
  group : ':' ∉ c.group.toList
  artifact : ':' ∉ c.artifact.toList
  version : ∀ v, c.version = some v → ':' ∉ v.toList
  classifier : ∀ k, c.classifier = some k → ':' ∉ k.toList

/-- A classifier after its dash. -/
def dashed (classifier : Option String) : String := (classifier.map ("-" ++ ·)).getD ""

/-- What the classifier follows: the version or, without one, the artifact. -/
def lastPart (c : Coordinate) : String := c.version.getD c.artifact

/-- The parts of a full name that a colon ends. -/
def colonParts (c : Coordinate) : List String :=
  match c.version with
  | some _ => [c.group, c.artifact]
  | none => [c.group]

/-- A part and a classifier turn into others when the front of the classifier, after a dash, moves
to the end of the part. -/
def Moved (part : String) (classifier : Option String) (part' : String)
    (classifier' : Option String) : Prop :=
  ∃ front, classifier = some (front ++ dashed classifier') ∧ part' = part ++ "-" ++ front

/-- A coordinate that differs from another one by the front of its classifier, which has moved to
the end of the part before. -/
def Shifted (c c' : Coordinate) : Prop :=
  c.colonParts = c'.colonParts ∧ Moved c.lastPart c.classifier c'.lastPart c'.classifier

variable {c c' : Coordinate} {s part part' : String} {classifier classifier' : Option String}

theorem eq_of_nonempty {t u : String} (h : nonempty? t = some u) : u = t := by
  rw [nonempty?] at h
  split_ifs at h
  exact (Option.some.inj h).symm

theorem isParsed_of_parse (h : parse? s = some c) : c.IsParsed := by
  have hpieces : ∀ t ∈ Text.pieces ':' s, ':' ∉ t.toList := fun t => Text.not_mem_of_mem_pieces
  rw [parse?] at h
  split at h
  · rename_i group artifact rest heq
    simp only [bind, Option.bind_eq_some_iff] at h
    obtain ⟨g, hg, a, ha, h⟩ := h
    obtain rfl := eq_of_nonempty hg
    obtain rfl := eq_of_nonempty ha
    rw [heq] at hpieces
    simp only [List.forall_mem_cons] at hpieces
    obtain ⟨hgroup, hartifact, hrest⟩ := hpieces
    have hoptional : ∀ t ∈ rest, ∀ u, nonempty? t = some u → ':' ∉ u.toList :=
      fun t ht u hu => eq_of_nonempty hu ▸ hrest t ht
    split at h
    · obtain rfl := Option.some.inj h
      exact ⟨hgroup, hartifact, by simp, by simp⟩
    · obtain rfl := Option.some.inj h
      exact ⟨hgroup, hartifact, hoptional _ (by simp), by simp⟩
    · obtain rfl := Option.some.inj h
      exact ⟨hgroup, hartifact, hoptional _ (by simp), hoptional _ (by simp)⟩
    · cases h
  · cases h

theorem dashed_injective (h : dashed classifier = dashed classifier') : classifier = classifier' := by
  have hne : ∀ k, "-" ++ k ≠ "" := fun k => by simp
  cases classifier with
  | none =>
    cases classifier' with
    | none => rfl
    | some k => exact absurd h.symm (hne k)
  | some k =>
    cases classifier' with
    | none => exact absurd h (hne k)
    | some k' => exact congrArg some ((String.append_right_inj "-").mp h)

/-- Two parts with classifiers are written alike just if a front moved. -/
theorem append_dashed_eq_iff :
    part ++ dashed classifier = part' ++ dashed classifier' ↔
      part = part' ∧ classifier = classifier' ∨ Moved part classifier part' classifier' ∨
        Moved part' classifier' part classifier := by
  -- the longer of the two parts ends in what the other classifier starts with
  have hmoved : ∀ {part part' : String} {k k' : Option String} {more : List Char},
      part'.toList = part.toList ++ more → (dashed k).toList = more ++ (dashed k').toList →
        part = part' ∧ k = k' ∨ Moved part k part' k' := by
    intro part part' k k' more hpart hdashed
    cases more with
    | nil =>
      rw [List.append_nil, String.toList_inj] at hpart
      exact Or.inl ⟨hpart.symm, dashed_injective (String.toList_inj.mp hdashed)⟩
    | cons x front =>
      cases k with
      | none => simp [dashed] at hdashed
      | some k =>
        obtain ⟨rfl, hrest⟩ : x = '-' ∧ k.toList = front ++ (dashed k').toList := by
          rw [dashed, Option.map_some, Option.getD_some, String.toList_append] at hdashed
          obtain ⟨hx, hrest⟩ := List.cons_eq_cons.mp hdashed
          exact ⟨hx.symm, hrest⟩
        refine Or.inr ⟨String.ofList front, congrArg some ?_, ?_⟩
        · simpa [← String.toList_inj] using hrest
        · simpa [← String.toList_inj] using hpart
  constructor
  · intro h
    rw [← String.toList_inj, String.toList_append, String.toList_append] at h
    rcases List.append_eq_append_iff.mp h with ⟨more, hpart, hrest⟩ | ⟨more, hpart, hrest⟩
    · exact (hmoved hpart hrest).imp_right Or.inl
    · rcases hmoved hpart hrest with ⟨rfl, rfl⟩ | hback
      · exact Or.inl ⟨rfl, rfl⟩
      · exact Or.inr (Or.inr hback)
  · have hback : ∀ {part part' : String} {k k' : Option String}, Moved part k part' k' →
        part ++ dashed k = part' ++ dashed k' := by
      rintro part part' k k' ⟨front, rfl, rfl⟩
      simp [dashed, String.append_assoc]
    rintro (⟨rfl, rfl⟩ | hmoved | hmoved)
    · rfl
    · exact hback hmoved
    · exact (hback hmoved).symm

theorem uniqueName_eq (c : Coordinate) :
    c.uniqueName = String.join (c.colonParts.map (· ++ ":")) ++ (c.lastPart ++ dashed c.classifier) := by
  obtain ⟨group, artifact, version, classifier⟩ := c
  cases version <;> simp [uniqueName, packageId, colonParts, lastPart, dashed, String.append_assoc]

theorem ext_parts (hcolons : c.colonParts = c'.colonParts) (hlast : c.lastPart = c'.lastPart)
    (hclassifier : c.classifier = c'.classifier) : c = c' := by
  obtain ⟨group, artifact, version, classifier⟩ := c
  obtain ⟨group', artifact', version', classifier'⟩ := c'
  cases version <;> cases version' <;> simp_all [colonParts, lastPart]

/-- A text cannot have a colon where the classifier or the part before it stands. -/
theorem IsParsed.not_mem_last (h : c.IsParsed) :
    ':' ∉ (c.lastPart ++ dashed c.classifier).toList := by
  have hlast : ':' ∉ c.lastPart.toList := by
    rw [lastPart]
    cases hversion : c.version with
    | none => exact h.artifact
    | some v => exact h.version v hversion
  have hdashed : ':' ∉ (dashed c.classifier).toList := by
    cases hclassifier : c.classifier with
    | none => simp [dashed]
    | some k => simpa [dashed] using h.classifier k hclassifier
  rw [String.toList_append, List.mem_append, not_or]
  exact ⟨hlast, hdashed⟩

theorem IsParsed.not_mem_colonParts (h : c.IsParsed) : ∀ t ∈ c.colonParts, ':' ∉ t.toList := by
  intro t ht
  rw [colonParts] at ht
  split at ht
  · rcases List.mem_cons.mp ht with rfl | ht
    · exact h.group
    · obtain rfl := List.mem_singleton.mp ht
      exact h.artifact
  · obtain rfl := List.mem_singleton.mp ht
    exact h.group

/-- What stands before the first of some characters is read off a text. -/
theorem append_cons_inj {x : Char} {front front' rest rest' : List Char} (h : x ∉ front)
    (h' : x ∉ front') : front ++ x :: rest = front' ++ x :: rest' ↔ front = front' ∧ rest = rest' := by
  constructor
  · intro heq
    have htake := congrArg (List.takeWhile (· ≠ x)) heq
    have hall : ∀ (l rest : List Char), x ∉ l → (l ++ x :: rest).takeWhile (· ≠ x) = l := by
      intro l rest hl
      have hpass : ∀ y ∈ l, decide (y ≠ x) = true := fun y hy =>
        decide_eq_true (ne_of_mem_of_not_mem hy hl)
      rw [List.takeWhile_append_of_pos hpass]
      simp
    rw [hall _ _ h, hall _ _ h'] at htake
    subst htake
    exact ⟨rfl, (List.cons_eq_cons.mp (List.append_cancel_left heq)).2⟩
  · rintro ⟨rfl, rfl⟩
    rfl

/-- Texts that colons end, with a last one that has none, are read off their concatenation. -/
theorem join_colons_inj {ps qs : List String} {t u : String} (hps : ∀ p ∈ ps, ':' ∉ p.toList)
    (hqs : ∀ q ∈ qs, ':' ∉ q.toList) (ht : ':' ∉ t.toList) (hu : ':' ∉ u.toList) :
    String.join (ps.map (· ++ ":")) ++ t = String.join (qs.map (· ++ ":")) ++ u ↔ ps = qs ∧ t = u := by
  induction ps generalizing qs with
  | nil =>
    cases qs with
    | nil => simp
    | cons q qs =>
      simp only [List.map_nil, List.map_cons, String.join_nil, String.empty_append, String.join_cons,
        String.append_assoc, reduceCtorEq, false_and, iff_false]
      rintro rfl
      exact ht (by simp)
  | cons p ps ih =>
    obtain ⟨hp, hps⟩ := List.forall_mem_cons.mp hps
    cases qs with
    | nil =>
      simp only [List.map_nil, List.map_cons, String.join_nil, String.empty_append, String.join_cons,
        String.append_assoc, reduceCtorEq, false_and, iff_false]
      rintro rfl
      exact hu (by simp)
    | cons q qs =>
      obtain ⟨hq, hqs⟩ := List.forall_mem_cons.mp hqs
      have hrest := ih hps hqs
      rw [List.cons_eq_cons, and_assoc, ← hrest, ← String.toList_inj, ← String.toList_inj,
        ← String.toList_inj]
      simp only [List.map_cons, String.join_cons, String.toList_append, List.append_assoc,
        String.reduceToList, List.cons_append, List.nil_append]
      exact append_cons_inj hp hq

/-- Coordinates that were read have the same full name just if they are the same or a front of one
classifier has moved. -/
theorem uniqueName_eq_iff (hc : c.IsParsed) (hc' : c'.IsParsed) :
    c.uniqueName = c'.uniqueName ↔ c = c' ∨ c.Shifted c' ∨ c'.Shifted c := by
  rw [uniqueName_eq, uniqueName_eq, join_colons_inj hc.not_mem_colonParts hc'.not_mem_colonParts
    hc.not_mem_last hc'.not_mem_last, append_dashed_eq_iff]
  constructor
  · rintro ⟨hcolons, ⟨hlast, hclassifier⟩ | hmoved | hmoved⟩
    · exact Or.inl (ext_parts hcolons hlast hclassifier)
    · exact Or.inr (Or.inl ⟨hcolons, hmoved⟩)
    · exact Or.inr (Or.inr ⟨hcolons.symm, hmoved⟩)
  · rintro (rfl | ⟨hcolons, hmoved⟩ | ⟨hcolons, hmoved⟩)
    · exact ⟨rfl, Or.inl ⟨rfl, rfl⟩⟩
    · exact ⟨hcolons, Or.inr (Or.inl hmoved)⟩
    · exact ⟨hcolons.symm, Or.inr (Or.inr hmoved)⟩

end ProtoForge.Package.Coordinate
