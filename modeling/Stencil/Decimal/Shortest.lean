/-!
The shortest decimal text of a floating-point number: of all decimals with as few digits as
possible that round to the number, the nearest one, written without an exponent.
-/
namespace Stencil.Decimal

/-- A positive finite number `mantissa * 2 ^ exponent`, with the spacing below it: half as wide
as above at the foot of a binade. -/
structure Binary where
  mantissa : Nat
  exponent : Int
  foot : Bool
  deriving DecidableEq, Repr

/-- A decimal `digits * 10 ^ exponent`. -/
structure Scaled where
  digits : Nat
  exponent : Int
  deriving DecidableEq, Repr

/-- The magnitude of a finite number in the 64-bit format. -/
def Binary.ofBits (bits : Nat) : Binary :=
  let fraction := bits % Nat.pow 2 52
  let biased : Nat := bits / Nat.pow 2 52 % Nat.pow 2 11
  if biased = 0 then ⟨fraction, -1074, false⟩
  else ⟨fraction + Nat.pow 2 52, (biased : Int) - 1075, fraction == 0 && biased > 1⟩

/-- `n * 2 ^ two * 10 ^ ten` as a fraction. -/
def fraction (n : Nat) (two ten : Int) : Nat × Nat :=
  (n * Nat.pow 2 two.toNat * Nat.pow 10 ten.toNat, Nat.pow 2 (-two).toNat * Nat.pow 10 (-ten).toNat)

def fractionLe (a b : Nat × Nat) : Bool :=
  a.1 * b.2 ≤ b.1 * a.2

def fractionLt (a b : Nat × Nat) : Bool :=
  a.1 * b.2 < b.1 * a.2

namespace Binary

/-- Whether a decimal on the grid of `10 ^ grid` rounds to the number. An end of the interval
counts when the mantissa is even. -/
def rounds (b : Binary) (grid : Int) (n : Nat) : Bool :=
  let low := fraction (if b.foot then 4 * b.mantissa - 1 else 4 * b.mantissa - 2)
    (b.exponent - 2) (-grid)
  let high := fraction (4 * b.mantissa + 2) (b.exponent - 2) (-grid)
  if b.mantissa % 2 = 0 then fractionLe low (n, 1) && fractionLe (n, 1) high
  else fractionLt low (n, 1) && fractionLt (n, 1) high

/-- The nearer of the two neighbours on a grid that round to the number; from the middle the upper
one. -/
def onGrid? (b : Binary) (grid : Int) : Option Scaled :=
  let (num, den) := fraction b.mantissa b.exponent (-grid)
  let below := num / den
  let nearer := if 2 * (num % den) < den then below else below + 1
  let further := if 2 * (num % den) < den then below + 1 else below
  if b.rounds grid nearer then some ⟨nearer, grid⟩
  else if b.rounds grid further then some ⟨further, grid⟩
  else none

/-- The number of decimal digits in front of the point; behind it, minus the zeros that follow
the point. -/
def magnitude (b : Binary) : Int :=
  let (num, den) := fraction b.mantissa b.exponent 0
  if den ≤ num then ((Nat.toDigits 10 (num / den)).length : Int)
  else (1 : Int) - (Nat.toDigits 10 ((den - 1) / num)).length

/-- The coarsest grid with a hit. It starts above the first digit, for numbers just below a power
of ten, and seventeen digits are always enough. -/
def shortest (b : Binary) : Scaled :=
  let grids := (List.range 18).map fun n => b.magnitude - (n : Nat)
  (grids.findSome? b.onGrid?).getD ⟨0, 0⟩

end Binary

/-- A decimal without an exponent, with a digit on each side of the point. -/
def Scaled.positional (d : Scaled) : String :=
  let digits := Nat.toDigits 10 d.digits
  let fractional := (-d.exponent).toNat
  let padded := List.replicate (fractional + 1 - digits.length) '0' ++ digits ++
    List.replicate d.exponent.toNat '0'
  let whole := padded.take (padded.length - fractional)
  let rest := padded.drop (padded.length - fractional)
  String.ofList (whole ++ '.' :: (if rest.isEmpty then ['0'] else rest))

/-- A number as text, with a point even where it is whole. -/
def ofFloat (x : Float) : String :=
  let bits := x.toBits.toNat
  let magnitude := bits % Nat.pow 2 63
  let sign := if magnitude < bits then "-" else ""
  if x.isNaN then "NaN"
  else if x.isInf then sign ++ "inf"
  else if magnitude = 0 then sign ++ "0.0"
  else sign ++ (Binary.ofBits magnitude).shortest.positional

end Stencil.Decimal
