/-!
# Widths

The numbers that a word of some bits can hold, without and with a sign.
-/
namespace ProtoForge.Width

/-- How many numbers a word of some bits can hold. -/
def size (bits : Nat) : Nat := 1 <<< bits

/-- Whether a number fits a word with a sign. -/
def FitsSigned (bits : Nat) (n : Int) : Prop := -(size (bits - 1) : Int) ≤ n ∧ n < size (bits - 1)

instance (bits : Nat) (n : Int) : Decidable (FitsSigned bits n) :=
  inferInstanceAs (Decidable (_ ∧ _))

/-- Words of every width can hold zero. -/
theorem size_pos (bits : Nat) : 0 < size bits := by
  rw [size, Nat.shiftLeft_eq, Nat.one_mul]
  exact Nat.two_pow_pos bits

end ProtoForge.Width
