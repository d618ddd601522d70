import ProtoForge.Width

/-!
# Shortest decimals

A finite binary number stands for an interval of reals, those that round to
it. Its shortest decimal is the one of that interval with the fewest digits,
and the nearest of those. Powers of ten are tried from the largest down; on
each grid only the two neighbours of the number can lie in the interval.
-/
namespace ProtoForge.Decimal

/-- The number `coefficient * 2 ^ exponent`; `narrow` if the gap below it is half the gap above. -/
structure Binary where
  coefficient : Nat
  exponent : Int
  narrow : Bool
  deriving Repr

/-- The number `coefficient * 10 ^ exponent`. -/
structure Scaled where
  coefficient : Nat
  exponent : Int
  deriving Repr, DecidableEq

/-- The size of a finite number from its bits. -/
def Binary.ofBits (bits : Nat) : Binary :=
  let fraction : Nat := bits % Width.size 52
  let power : Nat := bits / Width.size 52 % Width.size 11
  if power = 0 then ⟨fraction, -1074, false⟩
  else ⟨fraction + Width.size 52, (power : Int) - 1075, fraction = 0 && 1 < power⟩

/-- A comparison of `c * 10 ^ e` with `x * 2 ^ q`, as the two sides over a common scale. -/
def sides (c : Nat) (e : Int) (x : Nat) (q : Int) : Nat × Nat :=
  ((c * Nat.pow 10 e.toNat) <<< (-q).toNat, (x * Nat.pow 10 (-e).toNat) <<< q.toNat)

/-- Whether `c * 10 ^ e` rounds to the number. -/
def Binary.covers (b : Binary) (c : Nat) (e : Int) : Bool :=
  let q := b.exponent - 2
  let low := sides c e (4 * b.coefficient - if b.narrow then 1 else 2) q
  let high := sides c e (4 * b.coefficient + 2) q
  if b.coefficient % 2 = 0 then low.2 ≤ low.1 && high.1 ≤ high.2
  else low.2 < low.1 && high.1 < high.2

/-- The nearest decimal of a power of ten that rounds to the number. -/
def Binary.onGrid? (b : Binary) (e : Int) : Option Nat :=
  let (unit, value) := sides 1 e b.coefficient b.exponent
  let below := value / unit
  let rest := value % unit
  match b.covers below e && below ≠ 0, b.covers (below + 1) e with
  | true, true => some (if 2 * rest ≤ unit then below else below + 1)
  | true, false => some below
  | false, true => some (below + 1)
  | false, false => none

/-- The shortest decimal of a positive number. -/
def Binary.shortest (b : Binary) : Scaled :=
  let grids := (List.range 660).map fun (i : Nat) => (310 : Int) - i
  match grids.findSome? fun e => (b.onGrid? e).map fun c => Scaled.mk c e with
  | some d => d
  | none => ⟨0, 0⟩

/-- The digits of a scaled decimal without an exponent. -/
def Scaled.positional (d : Scaled) : String :=
  let digits := (toString d.coefficient).toList
  let zeros (n : Nat) := List.replicate n '0'
  if 0 ≤ d.exponent then String.ofList (digits ++ zeros d.exponent.toNat)
  else
    let places := (-d.exponent).toNat
    let padded := zeros (places + 1 - digits.length) ++ digits
    let whole := padded.length - places
    String.ofList (padded.take whole ++ '.' :: padded.drop whole)

/-- The shortest text of a number, without an exponent. -/
def text (x : Float) : String :=
  let bits := x.toBits.toNat
  if x.isNaN then "NaN"
  else
    let sign := if Width.size 63 ≤ bits then "-" else ""
    if x.isInf then sign ++ "inf"
    else
      let size := Binary.ofBits bits
      sign ++ if size.coefficient = 0 then "0" else size.shortest.positional

/-- The shortest text with at least one decimal place. -/
def pointedText (x : Float) : String :=
  let t := text x
  if x.isNaN || x.isInf || t.contains '.' then t else t ++ ".0"

/-- The digits of a scaled decimal with one digit before the point and an exponent, which
has a sign. -/
def Scaled.scientific (d : Scaled) : String :=
  let digits := (toString d.coefficient).toList
  let exponent := d.exponent + digits.length - 1
  let fraction := if digits.length = 1 then [] else '.' :: digits.drop 1
  let sign := if exponent < 0 then "e-" else "e+"
  String.ofList (digits.take 1 ++ fraction) ++ sign ++ toString exponent.natAbs

/-- The shortest text with at least one decimal place, with an exponent for numbers
of more than sixteen places or with more than four zeros after the point. -/
def compactText (x : Float) : String :=
  let size := Binary.ofBits (x.toBits.toNat % Width.size 63)
  let d := size.shortest
  let places := d.exponent + (toString d.coefficient).length
  if x.isNaN || x.isInf || size.coefficient = 0 || (-5 < places && places ≤ 16) then pointedText x
  else (if Width.size 63 ≤ x.toBits.toNat then "-" else "") ++ d.scientific

/-- The number nearest to `coefficient * 10 ^ exponent`. -/
def Scaled.toFloat (d : Scaled) : Float :=
  let length := (toString d.coefficient).length
  if d.coefficient = 0 then 0
  else if 400 < d.exponent then Float.ofScientific 1 false 400
  else if d.exponent < -400 - (length : Int) then 0
  else if 0 ≤ d.exponent then Float.ofScientific d.coefficient false d.exponent.toNat
  else Float.ofScientific d.coefficient true (-d.exponent).toNat

end ProtoForge.Decimal
