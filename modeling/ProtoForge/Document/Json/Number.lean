import ProtoForge.Document.Value
import ProtoForge.Width

/-!
# JSON numbers

A number without a point and an exponent is whole if it fits 64 bits. Any other
one is approximate: as many of its first digits as fit 64 bits make a float,
which is scaled by a power of ten. Each of the two steps rounds, so the result
need not be the float that is nearest to the number.
-/
namespace ProtoForge.Document.Json

/-- The digits at the start, and the rest. -/
def spanDigits (cs : List Char) : List Char × List Char := cs.span Char.isDigit

/-- The number of decimal digits. -/
def digitsValue (ds : List Char) : Nat := ds.foldl (fun n c => 10 * n + (c.toNat - 48)) 0

/-- A number with digits put to its end as long as it fits 64 bits, and the digits that
are left over. -/
def appendDigits (n : Nat) : List Char → Nat × List Char
  | [] => (n, [])
  | c :: cs =>
      let longer := 10 * n + (c.toNat - 48)
      if longer < Width.size 64 then appendDigits longer cs else (n, c :: cs)

/-- Digits are put to a number only as long as the result fits 64 bits. -/
theorem appendDigits_lt (n : Nat) (ds : List Char) (h : n < Width.size 64) :
    (appendDigits n ds).1 < Width.size 64 := by
  induction ds generalizing n with
  | nil => exact h
  | cons c cs ih =>
    simp only [appendDigits]
    split
    · exact ih _ ‹_›
    · exact h

/-- The digits left over are the last ones. -/
theorem suffix_appendDigits (n : Nat) (ds : List Char) : (appendDigits n ds).2 <:+ ds := by
  induction ds generalizing n with
  | nil => exact List.suffix_refl []
  | cons c cs ih =>
    simp only [appendDigits]
    split
    · exact (ih _).trans (List.suffix_cons c cs)
    · exact List.suffix_refl _

/-- The largest exponent of a power of ten that is a finite float. -/
def maxPower : Nat := 308

/-- A power of ten. -/
def powerOfTen (e : Nat) : Float := Float.ofScientific 1 false e

/-- A float scaled by a power of ten, in steps no larger than the largest power; three
steps down reach zero from any start below `2 ^ 64`. A float that becomes infinite has no
result. -/
def scaled? : (steps : Nat) → Float → Int → Option Float
  | steps, x, e =>
      if e.natAbs ≤ maxPower then
        if e < 0 then some (x / powerOfTen e.natAbs)
        else
          let y := x * powerOfTen e.natAbs
          if y.isInf then none else some y
      else if x == 0 then some x
      else if 0 < e then none
      else
        match steps with
        | 0 => some 0
        | steps + 1 => scaled? steps (x / powerOfTen maxPower) (e + maxPower)

/-- The float of a coefficient of 64 bits and an exponent. -/
def approximate? (coefficient : Nat) (e : Int) : Option Float :=
  scaled? 3 (UInt64.ofNat coefficient).toFloat e

/-- The largest exponent that is looked at. -/
def maxExponent : Nat := Width.size 31 - 1

/-- The float of a coefficient of 64 bits and an exponent that is raised by one as it is
written, if one is written. -/
def withExponent? (coefficient : Nat) (e : Int) : List Char → Option Float
  | [] => approximate? coefficient e
  | mark :: cs =>
      if mark = 'e' ∨ mark = 'E' then
        let (negative, ds) :=
          match cs with
          | '-' :: ds => (true, ds)
          | '+' :: ds => (false, ds)
          | ds => (false, ds)
        let n := digitsValue ds
        if ds.isEmpty || !ds.all Char.isDigit then none
        else if maxExponent < n then
          if coefficient ≠ 0 && !negative then none else some 0
        else approximate? coefficient (if negative then e - n else e + n)
      else none

/-- The value of a number without its sign. -/
def unsigned? (negative : Bool) (cs : List Char) : Option Value := do
  let (whole, rest) := spanDigits cs
  if whole.isEmpty || (whole.head? = some '0' && 1 < whole.length) then none
  let n := digitsValue whole
  if rest.isEmpty && !(negative && n = 0) then
    if negative && n ≤ Width.size 63 then return .int (-n)
    if !negative && n < Width.size 64 then return .int n
  let (coefficient, passed) := appendDigits 0 whole
  let (coefficient, e, rest) ←
    match rest with
    | '.' :: more =>
        let (ds, rest) := spanDigits more
        let (coefficient, left) := appendDigits coefficient ds
        if ds.isEmpty then none
        else some (coefficient, (passed.length + left.length : Int) - ds.length, rest)
    | _ => some (coefficient, (passed.length : Int), rest)
  let x ← withExponent? coefficient e rest
  return .float (if negative then -x else x)

/-- The value of a number. -/
def number? (cs : List Char) : Option Value :=
  match cs with
  | '-' :: rest => unsigned? true rest
  | _ => unsigned? false cs

end ProtoForge.Document.Json
