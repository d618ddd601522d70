/-!
# Character ranges

Classes of characters given as ascending lists of closed code point ranges.
-/
namespace ProtoForge.Text

/-- A class of characters as closed ranges of code points. -/
structure CharRanges where
  ranges : List (Nat × Nat)

/-- Whether the class holds the character. -/
def CharRanges.contains (t : CharRanges) (c : Char) : Bool :=
  t.ranges.any fun r => r.1 ≤ c.toNat && c.toNat ≤ r.2

theorem CharRanges.contains_iff (t : CharRanges) (c : Char) :
    t.contains c = true ↔ ∃ r ∈ t.ranges, r.1 ≤ c.toNat ∧ c.toNat ≤ r.2 := by
  simp [contains]

end ProtoForge.Text
