/-
  The fewest decimal digits that read back as a given double.

  `shortest m q` looks at the decimal grids of one, two, … seventeen digits and takes
  the first that has a point among the reals which round to `m · 2 ^ q`; of two such
  points it takes the nearer. `positional` writes digits without an exponent.
-/
import PhpSharp.Decimal.Double

namespace PhpSharp.Decimal

/-- The number `digits · 10 ^ exponent`. -/
structure Digits where
  digits : Nat
  exponent : Int
  deriving DecidableEq, Repr

/-- The reals that round to `m · 2 ^ q`, over the common denominator `den`: from `low` to
    `high` around `value`, the ends included if `closed`. -/
structure RoundingInterval where
  low : Nat
  value : Nat
  high : Nat
  den : Nat
  closed : Bool

/-- The interval of `m · 2 ^ q`. Below a power of two the doubles lie twice as close. -/
def RoundingInterval.of (m : Nat) (q : Int) : RoundingInterval :=
  let up := twoTo q.toNat
  let below := if m = twoTo 52 && q > -1074 then 1 else 2
  { low := (4 * m - below) * up, value := 4 * m * up, high := (4 * m + 2) * up,
    den := 4 * twoTo (-q).toNat, closed := m % 2 == 0 }

/-- Whether `point · 10 ^ exponent` lies in the interval. -/
def RoundingInterval.contains (i : RoundingInterval) (point : Nat) (exponent : Int) : Bool :=
  let x := point * tenTo exponent.toNat * i.den
  let unit := tenTo (-exponent).toNat
  if i.closed then i.low * unit ≤ x && x ≤ i.high * unit
  else i.low * unit < x && x < i.high * unit

/-- The point of the grid `10 ^ exponent` in the interval that is nearest to its value. -/
def RoundingInterval.gridPoint? (i : RoundingInterval) (exponent : Int) : Option Nat :=
  let unit := i.den * tenTo exponent.toNat
  let scaled := i.value * tenTo (-exponent).toNat
  let floor := scaled / unit
  let up := 2 * (scaled % unit) ≥ unit
  match i.contains floor exponent, i.contains (floor + 1) exponent with
  | true, true => some (if up then floor + 1 else floor)
  | true, false => some floor
  | false, true => some (floor + 1)
  | false, false => none

/-- The number of decimal digits before the point of `num / den`, and minus the number of
    zeros behind it for a number below a tenth. -/
def magnitude (num den : Nat) : Int :=
  let guess : Int := (Nat.toDigits 10 num).length - (Nat.toDigits 10 den).length
  if num * tenTo (-guess).toNat < den * tenTo guess.toNat then guess else guess + 1

/-- The digits with the zeros at their end moved into the exponent. -/
def Digits.strip : Nat → Digits → Digits
  | 0, d => d
  | fuel + 1, d =>
    if d.digits % 10 = 0 && d.digits ≠ 0 then strip fuel ⟨d.digits / 10, d.exponent + 1⟩ else d

/-- The shortest digits of `m · 2 ^ q`, and of several such the nearest to it. -/
def shortest (m : Nat) (q : Int) : Digits :=
  if m = 0 then ⟨0, 0⟩ else
  let i := RoundingInterval.of m q
  let top := magnitude i.value i.den
  let grids := (List.range 17).map fun n => top - (n + 1 : Nat)
  match grids.findSome? fun e => (i.gridPoint? e).map (Digits.mk · e) with
  | some d => d.strip 17
  | none => ⟨0, 0⟩

/-- The decimal digits of a natural number. -/
def digitChars (n : Nat) : List Char := Nat.toDigits 10 n

/-- Digits written with a point where it belongs and never an exponent; a whole number has
    no point. -/
def positional (d : Digits) : String :=
  let ds := digitChars d.digits
  if 0 ≤ d.exponent then
    String.ofList (ds ++ List.replicate d.exponent.toNat '0')
  else
    let places := (-d.exponent).toNat
    let padded := List.replicate (places + 1 - ds.length) '0' ++ ds
    let whole := padded.length - places
    String.ofList (padded.take whole ++ '.' :: padded.drop whole)

/-- The shortest positional text of a double. -/
def Double.text : Double → String
  | .finite m q => positional (shortest m q)
  | .infinite => "inf"

end PhpSharp.Decimal
