import ProtoForge.Proofs.Text.Trimming
import ProtoForge.Settings.Reader
import Mathlib

/-!
# The written form of scan policies

A list of ids is read by its commas and blanks, so ids without either can be
written one after the other and read again. No such list is one of the words
`none` and `all`, as ids have colons.
-/
namespace ProtoForge.Scan.Policy

open Text Document

variable {s id : String} {ids : List String}

/-- Texts on both sides of the one colon. -/
def IsPackage (id : String) : Prop :=
  ∃ group artifact : String, id = group ++ ":" ++ artifact ∧ group ≠ "" ∧ artifact ≠ "" ∧
    ':' ∉ group.toList ∧ ':' ∉ artifact.toList

theorem isPackageId_iff : isPackageId id = true ↔ IsPackage id := by
  constructor
  · intro h
    unfold isPackageId at h
    split at h
    · rename_i group artifact hpieces
      have hparts : ∀ part ∈ [group, artifact], ':' ∉ part.toList := by
        rw [← hpieces]
        exact fun part => not_mem_of_mem_pieces
      have hid : id = group ++ ":" ++ artifact := by
        rw [← intercalate_pieces ':' id, hpieces, String.intercalate_cons_cons,
          String.intercalate_singleton]
        rfl
      simp only [ne_eq, decide_not, Bool.and_eq_true, Bool.not_eq_eq_eq_not, Bool.not_true,
        decide_eq_false_iff_not] at h
      exact ⟨group, artifact, hid, h.1, h.2, hparts group (by simp), hparts artifact (by simp)⟩
    · cases h
  · rintro ⟨group, artifact, rfl, hgroup, hartifact, hgcolon, hacolon⟩
    have hparts : ∀ part ∈ [group, artifact], ':' ∉ part.toList := by simp [hgcolon, hacolon]
    have hpieces : pieces ':' (group ++ ":" ++ artifact) = [group, artifact] :=
      pieces_intercalate hparts (List.cons_ne_nil group [artifact])
    simp [isPackageId, hpieces, hgroup, hartifact]

/-- What the commas of a text separate, without blanks around it, and without what is blank. -/
theorem listed_eq_iff : listed s = ids ↔ ∃ parts : List String, parts ≠ [] ∧
    (∀ part ∈ parts, ',' ∉ part.toList) ∧ ",".intercalate parts = s ∧
      ids = (parts.map trim).filter (· ≠ "") := by
  constructor
  · rintro rfl
    exact ⟨pieces ',' s, pieces_ne_nil ',' s, fun part => not_mem_of_mem_pieces,
      intercalate_pieces ',' s, rfl⟩
  · rintro ⟨parts, hne, hcomma, rfl, rfl⟩
    have hpieces : pieces ',' (",".intercalate parts) = parts := pieces_intercalate hcomma hne
    rw [listed, hpieces]

/-- What a list of items holds: texts that are not empty and can be listed again. -/
structure IsItem (item : String) : Prop where
  ne_empty : item ≠ ""
  isTrimmed : IsTrimmed item
  no_comma : ',' ∉ item.toList

theorem isItem_of_mem_listed (h : id ∈ listed s) : IsItem id := by
  obtain ⟨hmem, hne⟩ := List.mem_filter.mp h
  obtain ⟨part, hpart, rfl⟩ := List.mem_map.mp hmem
  obtain ⟨before, after, -, -, hchars⟩ := exists_trim part
  refine ⟨by simpa using hne, isTrimmed_trim part, fun hcomma => ?_⟩
  exact not_mem_of_mem_pieces hpart (by simp [hchars, hcomma])

theorem listed_intercalate (h : ∀ id ∈ ids, IsItem id) (hne : ids ≠ []) :
    listed (",".intercalate ids) = ids := by
  refine listed_eq_iff.mpr ⟨ids, hne, fun id hid => (h id hid).no_comma, rfl, ?_⟩
  have htrim : ids.map trim = ids := by
    rw [List.map_congr_left fun id hid => trim_eq_self (h id hid).isTrimmed, List.map_id']
  rw [htrim, List.filter_eq_self.mpr]
  exact fun id hid => by simpa using (h id hid).ne_empty

theorem parse_eq_only_iff : parse s = .ok (only ids) ↔
    (trim s).toLower ≠ "none" ∧ (trim s).toLower ≠ "all" ∧ listed (trim s) = ids ∧ ids ≠ [] ∧
      ∀ id ∈ ids, IsPackage id := by
  simp only [parse]
  by_cases hnone : (trim s).toLower = "none"
  · simp [hnone]
  by_cases hall : (trim s).toLower = "all"
  · simp [hall]
  rw [if_neg hnone, if_neg hall]
  by_cases hempty : listed (trim s) = []
  · simp only [hempty, List.isEmpty_nil, if_true, reduceCtorEq, false_iff]
    rintro ⟨-, -, rfl, hne, -⟩
    exact hne rfl
  rw [if_neg (mt List.isEmpty_iff.mp hempty)]
  cases hfind : (listed (trim s)).find? (!isPackageId ·) with
  | some id =>
    have hid : ¬ IsPackage id := by
      rw [← isPackageId_iff]
      simpa using List.find?_some hfind
    simp only [reduceCtorEq, false_iff]
    rintro ⟨-, -, rfl, -, hpackages⟩
    exact hid (hpackages id (List.mem_of_find?_eq_some hfind))
  | none =>
    have hpackages : ∀ id ∈ listed (trim s), IsPackage id := fun id hid =>
      isPackageId_iff.mp (by simpa using List.find?_eq_none.mp hfind id hid)
    simp only [Except.ok.injEq, only.injEq]
    constructor
    · rintro rfl
      exact ⟨hnone, hall, rfl, hempty, hpackages⟩
    · rintro ⟨-, -, hlisted, -⟩
      exact hlisted

/-- Ids make no word that stands for another policy. -/
theorem toLower_ne_of_colon (h : ':' ∈ s.toList) : s.toLower ≠ "none" ∧ s.toLower ≠ "all" := by
  have hlower : ':' ∈ s.toLower.toList := by
    rw [String.toLower, String.toList_map]
    exact List.mem_map.mpr ⟨':', h, rfl⟩
  constructor <;> intro hword <;> rw [hword] at hlower <;> revert hlower <;> decide

theorem IsPackage.colon_mem (h : IsPackage id) : ':' ∈ id.toList := by
  obtain ⟨group, artifact, rfl, -⟩ := h
  simp

/-- What is read can be written, and is then read again. -/
theorem parse_text {p : Policy} (h : parse s = .ok p) : parse p.text = .ok p := by
  cases p with
  | nothing => decide +kernel
  | everything => decide +kernel
  | only ids =>
    obtain ⟨-, -, hlisted, hne, hpackages⟩ := parse_eq_only_iff.mp h
    have hitems : ∀ id ∈ ids, IsItem id := fun id hid => isItem_of_mem_listed (hlisted ▸ hid)
    have htrim : trim (",".intercalate ids) = ",".intercalate ids :=
      trim_eq_self (isTrimmed_intercalate fun id hid =>
        ⟨(hitems id hid).ne_empty, (hitems id hid).isTrimmed⟩)
    obtain ⟨first, hfirst⟩ := List.exists_mem_of_ne_nil ids hne
    have hcolon : ':' ∈ (",".intercalate ids).toList :=
      mem_intercalate_of_mem hfirst (hpackages first hfirst).colon_mem
    have hwords := toLower_ne_of_colon hcolon
    rw [text, parse_eq_only_iff, htrim]
    exact ⟨hwords.1, hwords.2, listed_intercalate hitems hne, hne, hpackages⟩

/-- The value that is saved for a policy is loaded as that policy, also where values are
converted. -/
theorem readPolicy_ofValue {p : Policy} (h : parse p.text = .ok p) (number : Int → Scalar)
    (origin : Option String) :
    Settings.readPolicy .strict (Tree.ofValue number origin (.text p.text)) = .ok p ∧
      Settings.readPolicy .lenient (Tree.ofValue number origin (.text p.text)) = .ok p := by
  constructor <;> change (parse p.text).mapError _ = _ <;> rw [h] <;> rfl

/-- What is read as a policy is read as the same policy once it is written. The lists of ids are
read from the texts that, without the blanks around them, are neither of the words `none` and
`all` in any case, and whose commas separate ids, with at least one item that is not blank; their
policies take the listed packages. -/
theorem written_policies_read_back :
    (∀ s p, parse s = .ok p → parse p.text = .ok p ∧ ∀ number origin,
      Settings.readPolicy .strict (Tree.ofValue number origin (.text p.text)) = .ok p ∧
        Settings.readPolicy .lenient (Tree.ofValue number origin (.text p.text)) = .ok p) ∧
    (∀ s ids, parse s = .ok (only ids) ↔
      (trim s).toLower ≠ "none" ∧ (trim s).toLower ≠ "all" ∧ ids ≠ [] ∧
        (∀ id ∈ ids, IsPackage id) ∧ ∃ parts : List String, parts ≠ [] ∧
          (∀ part ∈ parts, ',' ∉ part.toList) ∧ ",".intercalate parts = trim s ∧
            ids = (parts.map trim).filter (· ≠ "")) ∧
    ∀ ids id, (only ids).selects id = true ↔ id ∈ ids := by
  refine ⟨fun s p h => ⟨parse_text h, readPolicy_ofValue (parse_text h)⟩, fun s ids => ?_,
    fun ids id => List.contains_iff_mem⟩
  rw [parse_eq_only_iff, listed_eq_iff]
  constructor
  · rintro ⟨hnone, hall, hparts, hne, hpackages⟩
    exact ⟨hnone, hall, hne, hpackages, hparts⟩
  · rintro ⟨hnone, hall, hne, hpackages, hparts⟩
    exact ⟨hnone, hall, hparts, hne, hpackages⟩

/-- Blanks and empty items are lost in writing, and nothing else. -/
theorem spaced_list_reads_back :
    parse " io.acme:api, ,io.acme:types " = .ok (only ["io.acme:api", "io.acme:types"]) ∧
      parse "io.acme:api,io.acme:types" = .ok (only ["io.acme:api", "io.acme:types"]) := by
  have h : parse " io.acme:api, ,io.acme:types " =
      .ok (only ["io.acme:api", "io.acme:types"]) := by decide +kernel
  exact ⟨h, (written_policies_read_back.1 _ _ h).1⟩

end ProtoForge.Scan.Policy
