import ProtoForge.Digest.Framed
import Mathlib.Tactic

/-!
# Framed streams

Every name and every content stands in the stream after its length, so the
stream can be cut at the lengths again: two sequences of parts have the same
stream only if they are the same, whatever bytes their names and contents hold.
-/
namespace ProtoForge

theorem Bytes.ofNat64_injective {m n : Nat} (hm : m < 2 ^ 64) (hn : n < 2 ^ 64)
    (h : ofNat64 m = ofNat64 n) : m = n := by
  have hrange : List.range 8 = [0, 1, 2, 3, 4, 5, 6, 7] := rfl
  simp only [ofNat64, hrange, List.map_cons, List.map_nil, List.cons.injEq, and_true,
    ← UInt8.toNat_inj, UInt8.toNat_ofNat', Nat.shiftRight_eq_div_pow] at h
  omega

namespace Digest

/-- Named parts whose names and contents have lengths of 64 bits. -/
def IsShort (parts : List (String × Bytes)) : Prop :=
  ∀ part ∈ parts, Bytes.textSize part.1 < 2 ^ 64 ∧ part.2.length < 2 ^ 64

instance (parts : List (String × Bytes)) : Decidable (IsShort parts) :=
  inferInstanceAs (Decidable (∀ part ∈ parts, _))

variable {a b rest rest' : Bytes} {xs ys : List (String × Bytes)}

/-- A frame ends where its length says, whatever follows it. -/
theorem frame_append_inj (ha : a.length < 2 ^ 64) (hb : b.length < 2 ^ 64)
    (h : frame a ++ rest = frame b ++ rest') : a = b ∧ rest = rest' := by
  rw [frame, frame, List.append_assoc, List.append_assoc] at h
  obtain ⟨hlengths, hcontent⟩ := List.append_inj h (by simp)
  exact List.append_inj hcontent (Bytes.ofNat64_injective ha hb hlengths)

theorem framed_cons (part : String × Bytes) (xs : List (String × Bytes)) :
    framed (part :: xs) = frame (Bytes.ofText part.1) ++ (frame part.2 ++ framed xs) := by
  simp [framed]

theorem framed_cons_ne_nil (part : String × Bytes) (xs : List (String × Bytes)) :
    framed (part :: xs) ≠ [] := by
  intro h
  have hlength := congrArg List.length h
  simp [framed_cons, frame] at hlength

/-- The stream of named parts can be cut into parts in one way only. -/
theorem framed_inj (hx : IsShort xs) (hy : IsShort ys) (h : framed xs = framed ys) : xs = ys := by
  induction xs generalizing ys with
  | nil =>
    cases ys with
    | nil => rfl
    | cons y ys => exact absurd h.symm (framed_cons_ne_nil y ys)
  | cons x xs ih =>
    cases ys with
    | nil => exact absurd h (framed_cons_ne_nil x xs)
    | cons y ys =>
      obtain ⟨⟨hname, hcontent⟩, hxs⟩ := List.forall_mem_cons.mp hx
      obtain ⟨⟨hname', hcontent'⟩, hys⟩ := List.forall_mem_cons.mp hy
      rw [framed_cons, framed_cons] at h
      obtain ⟨hnames, h⟩ := frame_append_inj hname hname' h
      obtain ⟨hcontents, h⟩ := frame_append_inj hcontent hcontent' h
      rw [Prod.ext (Bytes.ofText_injective hnames) hcontents, ih hxs hys h]

end Digest

end ProtoForge
