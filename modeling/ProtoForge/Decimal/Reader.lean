import ProtoForge.Decimal.Shortest
import ProtoForge.Text.LowerCase

/-!
# Reading decimals

Numbers as people write them: an optional sign, digits with an optional point,
and an optional exponent. A point needs a digit on one side only.
-/
namespace ProtoForge.Decimal

/-- The number of decimal digits. -/
def digitsValue (ds : List Char) : Nat := ds.foldl (fun n c => 10 * n + (c.toNat - 48)) 0

/-- Whether a sign is a minus, and what follows it. -/
def splitSign : List Char → Bool × List Char
  | '-' :: cs => (true, cs)
  | '+' :: cs => (false, cs)
  | cs => (false, cs)

/-- A number with its sign. -/
def signed (negative : Bool) (n : Nat) : Int := if negative then -(n : Int) else n

/-- A whole number. -/
def wholeNumber? (cs : List Char) : Option Int :=
  let (negative, ds) := splitSign cs
  if ds.isEmpty || !ds.all Char.isDigit then none else some (signed negative (digitsValue ds))

/-- A whole number of 64 bits. -/
def signed64? (s : String) : Option Int := do
  let n ← wholeNumber? s.toList
  if Width.FitsSigned 64 n then some n else none

/-- The exponent part of a number. -/
def exponentPart? : List Char → Option Int
  | [] => some 0
  | e :: cs => if e = 'e' || e = 'E' then wholeNumber? cs else none

/-- A finite number without a sign. -/
def unsigned? (cs : List Char) : Option Float := do
  let whole := cs.takeWhile Char.isDigit
  let (fraction, rest) :=
    match cs.dropWhile Char.isDigit with
    | '.' :: more => (more.takeWhile Char.isDigit, more.dropWhile Char.isDigit)
    | more => ([], more)
  if (whole ++ fraction).isEmpty then none
  let e ← exponentPart? rest
  pure (Scaled.mk (digitsValue (whole ++ fraction)) (e - fraction.length)).toFloat

/-- A number. -/
def number? (s : String) : Option Float := do
  let (negative, cs) := splitSign s.toList
  let x ←
    match Text.lowerCase (String.ofList cs) with
    | "inf" => some (1 / 0)
    | "infinity" => some (1 / 0)
    | "nan" => some (0 / 0)
    | _ => unsigned? cs
  pure (if negative then -x else x)

end ProtoForge.Decimal
