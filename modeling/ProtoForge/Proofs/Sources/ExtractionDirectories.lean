import ProtoForge.Proofs.Package.SharedNames
import ProtoForge.Proofs.Sources.Gathered
import Mathlib

/-!
# Where packages are extracted

The directory for the extracted files of a package is named by the hash of its
full name. A hash is a file name, so two packages have one directory in common
just if their names have the same hash, and short of a collision this is so
just if a front of one classifier moved.
-/
namespace ProtoForge

open Files Files.Disk

namespace Bytes

variable {b : Bytes}

/-- The digits are ASCII characters, and none of them is a slash. -/
theorem hexDigit_spec : ∀ n < 16, hexDigit n ≠ '/' ∧ (String.utf8EncodeChar (hexDigit n)).length = 1 := by
  decide

theorem mem_toHex {c : Char} (h : c ∈ (toHex b).toList) : ∃ n < 16, c = hexDigit n := by
  rw [toHex, String.toList_ofList] at h
  obtain ⟨x, -, hc⟩ := List.mem_flatMap.mp h
  have hx := x.toNat_lt
  rcases List.mem_cons.mp hc with rfl | hc
  · exact ⟨x.toNat / 16, by omega, rfl⟩
  · exact ⟨x.toNat % 16, by omega, List.mem_singleton.mp hc⟩

theorem textSize_toHex (b : Bytes) : textSize (toHex b) = 2 * b.length := by
  have hdigits : ∀ cs : List Char, (∀ c ∈ cs, ∃ n < 16, c = hexDigit n) →
      (cs.flatMap String.utf8EncodeChar).length = cs.length := by
    intro cs hcs
    induction cs with
    | nil => rfl
    | cons c cs ih =>
      obtain ⟨⟨n, hn, rfl⟩, hrest⟩ := List.forall_mem_cons.mp hcs
      rw [List.flatMap_cons, List.length_append, ih hrest, (hexDigit_spec n hn).2, List.length_cons,
        Nat.add_comm]
  rw [textSize, ofText, hdigits _ fun c hc => mem_toHex hc, toHex, String.toList_ofList]
  simp [List.length_flatMap, Nat.mul_comm]

end Bytes

namespace Digest

/-- Two texts have different hashes, unless they are the same. -/
def NoCollision (s t : String) : Prop := ofText s = ofText t → s = t

theorem textSize_sha256 (message : Bytes) : Bytes.textSize (sha256 message) = 64 := by
  rw [sha256, Bytes.textSize_toHex]
  simp [Sha256State.words]

/-- A hash is the name of a file. -/
theorem isFileName_sha256 (message : Bytes) : IsFileName (sha256 message) := by
  have hsize := textSize_sha256 message
  refine ⟨⟨?_, ?_, ?_⟩, by rw [hsize]; decide⟩
  · rw [Path.isIdle, Bool.or_eq_false_iff, beq_eq_false_iff_ne, beq_eq_false_iff_ne]
    constructor <;> (intro h; rw [h] at hsize; exact absurd hsize (by decide))
  · intro h
    rw [h] at hsize
    exact absurd hsize (by decide)
  · intro hslash
    obtain ⟨n, hn, heq⟩ := Bytes.mem_toHex hslash
    exact (Bytes.hexDigit_spec n hn).1 heq.symm

end Digest

namespace Sources

open Package

variable {workDir : Path} {kind kind' : ScanKind} {p p' : Coordinate} {s s' : String}

theorem isFileName_directory (kind : ScanKind) : IsFileName kind.directory := by
  cases kind <;> decide

/-- The directory of a package lies two names below the work directory. -/
theorem components_extractionDirectory (workDir : Path) (kind : ScanKind) (p : Coordinate) :
    (extractionDirectory workDir kind p).components =
      workDir.components ++ [.name kind.directory, .name (Digest.ofText p.uniqueName)] := by
  have hkind := (isFileName_directory kind).toIsOrdinary
  have hhash : Path.IsOrdinary (Digest.ofText p.uniqueName) :=
    (Digest.isFileName_sha256 (Bytes.ofText p.uniqueName)).toIsOrdinary
  have hfirst : (workDir.join ⟨kind.directory⟩).components =
      workDir.components ++ [.name kind.directory] := by
    by_cases hwork : workDir.text = ""
    · have hjoin : workDir.join ⟨kind.directory⟩ = ⟨kind.directory⟩ := by
        rw [Path.join, if_neg (by simp [Path.isAbsolute_eq_false hkind.no_slash]), hwork]
        simp
      rw [hjoin, Path.components_eq_nil_iff.mpr hwork]
      cases kind <;> decide +kernel
    · exact Path.components_join_name hwork hkind
  have hne : (workDir.join ⟨kind.directory⟩).text ≠ "" := by
    intro h
    rw [Path.components_eq_nil_iff.mpr h] at hfirst
    simp at hfirst
  rw [extractionDirectory, Path.components_join_name hne hhash, hfirst, List.append_assoc]
  rfl

theorem extractionDirectory_same_iff :
    (extractionDirectory workDir kind p).same (extractionDirectory workDir kind' p') = true ↔
      kind = kind' ∧ Digest.ofText p.uniqueName = Digest.ofText p'.uniqueName := by
  have hkinds : kind.directory = kind'.directory ↔ kind = kind' := by
    cases kind <;> cases kind' <;> decide
  rw [Path.same, beq_iff_eq, components_extractionDirectory, components_extractionDirectory]
  simp [hkinds]

/-- Two packages whose coordinates were read have the same full name, and short of a collision of
hashes the same directory, just if they have the same coordinate or the front of one's classifier
stands, after a dash, at the end of the other's version or artifact. -/
theorem directory_shared_iff (hp : Coordinate.parse? s = some p) (hp' : Coordinate.parse? s' = some p')
    (hhash : Digest.NoCollision p.uniqueName p'.uniqueName) (workDir : Path) (kind : ScanKind) :
    (p.uniqueName = p'.uniqueName ↔ p = p' ∨ p.Shifted p' ∨ p'.Shifted p) ∧
      ((extractionDirectory workDir kind p).same (extractionDirectory workDir kind p') = true ↔
        p = p' ∨ p.Shifted p' ∨ p'.Shifted p) := by
  have hnames := Coordinate.uniqueName_eq_iff (Coordinate.isParsed_of_parse hp)
    (Coordinate.isParsed_of_parse hp')
  refine ⟨hnames, ?_⟩
  rw [extractionDirectory_same_iff, ← hnames, and_iff_right rfl]
  exact ⟨hhash, fun h => congrArg Digest.ofText h⟩

/-- The name of the directory for a package with a plain name. -/
def plainHash : String := "7e5c922b2a2cc75cce0a3f7daf374bb749266d7a5dafb76eb0d4c41696c9a086"

theorem digest_plain : Digest.ofText "g:a" = plainHash := by cbv

/-- A classifier keeps two packages apart. -/
theorem directory_of_classified :
    ∃ p p', Coordinate.parse? "g:a" = some p ∧ Coordinate.parse? "g:a::x" = some p' ∧
      Digest.NoCollision p.uniqueName p'.uniqueName ∧
      (extractionDirectory ⟨"/w"⟩ .dependency p).same (extractionDirectory ⟨"/w"⟩ .dependency p') =
        false := by
  have hp : Coordinate.parse? "g:a" = some ⟨"g", "a", none, none⟩ := by cbv
  have hp' : Coordinate.parse? "g:a::x" = some ⟨"g", "a", none, some "x"⟩ := by cbv
  have hhash : Digest.NoCollision (Coordinate.uniqueName ⟨"g", "a", none, none⟩)
      (Coordinate.uniqueName ⟨"g", "a", none, some "x"⟩) := by
    have hname : Coordinate.uniqueName ⟨"g", "a", none, none⟩ = "g:a" := by decide
    have hname' : Coordinate.uniqueName ⟨"g", "a", none, some "x"⟩ = "g:a-x" := by decide
    have hdigest' : Digest.ofText "g:a-x" =
        "0ca8dcdb2f371ff75a5d603a22ac47abc048b2046ad20323dd84703d38eb0235" := by cbv
    intro h
    rw [hname, hname', digest_plain, hdigest'] at h
    exact absurd h (by decide)
  refine ⟨_, _, hp, hp', hhash, ?_⟩
  rw [Bool.eq_false_iff, ne_eq, (directory_shared_iff hp hp' hhash ⟨"/w"⟩ .dependency).2]
  rintro (heq | ⟨-, front, hfront, -⟩ | ⟨-, front, -, hlast⟩)
  · cases heq
  · cases hfront
  · -- the artifact of the first package would be longer than itself
    have hletters := congrArg String.toList hlast
    simp [Coordinate.lastPart] at hletters

/-- A dash in a version may be that of a classifier. -/
theorem dashed_version_shares_directory :
    ∃ p p', Coordinate.parse? "g:a:1-x" = some p ∧ Coordinate.parse? "g:a:1:x" = some p' ∧ p ≠ p' ∧
      p.uniqueName = p'.uniqueName ∧ ∀ workDir kind,
        extractionDirectory workDir kind p = extractionDirectory workDir kind p' := by
  have hp : Coordinate.parse? "g:a:1-x" = some ⟨"g", "a", some "1-x", none⟩ := by cbv
  have hp' : Coordinate.parse? "g:a:1:x" = some ⟨"g", "a", some "1", some "x"⟩ := by cbv
  have hname : Coordinate.uniqueName ⟨"g", "a", some "1-x", none⟩ =
      Coordinate.uniqueName ⟨"g", "a", some "1", some "x"⟩ := by decide
  refine ⟨_, _, hp, hp', by decide, hname, fun workDir kind => ?_⟩
  rw [extractionDirectory, hname]
  rfl

end Sources

end ProtoForge
