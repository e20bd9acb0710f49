/-
  Double-precision numbers, exactly: a finite one is `m · 2 ^ q`, so that rounding to
  one and writing one down are questions about natural numbers.

  * `nearest num den` is the double nearest to `num / den`, ties to an even `m`;
  * `ofDecimal digits exponent` is the double nearest to `digits · 10 ^ exponent`.

  The numbers are not negative: a sign is text in front of one.
-/
import PhpSharp.Decimal.Power

namespace PhpSharp.Decimal

/-- A double that is not negative. -/
inductive Double
  /-- The number `m · 2 ^ q`. -/
  | finite (m : Nat) (q : Int)
  /-- What is too large for `finite`. -/
  | infinite
  deriving DecidableEq, Repr

/-- The quotient to the nearest natural number, a tie to the even one. -/
def roundDiv (num den : Nat) : Nat :=
  let quotient := num / den
  let twice := 2 * (num % den)
  if twice < den || (twice == den && quotient % 2 == 0) then quotient else quotient + 1

/-- `num / den` divided by `2 ^ q`, as a numerator and a denominator. -/
def scaleDown (num den : Nat) (q : Int) : Nat × Nat :=
  if 0 ≤ q then (num, den * twoTo q.toNat) else (num * twoTo (-q).toNat, den)

/-- The exponent at which `num / den` has 53 binary digits before the point, or the
    least exponent of a double. -/
def binaryExponent (num den : Nat) : Int :=
  let q : Int := num.log2 - den.log2 - 52
  let (a, b) := scaleDown num den q
  max (if a < b * twoTo 52 then q - 1 else q) (-1074)

/-- The double nearest to `num / den`. -/
def Double.nearest (num den : Nat) : Double :=
  let q := binaryExponent num den
  let (a, b) := scaleDown num den q
  let m := roundDiv a b
  let (m, q) := if m = twoTo 53 then (twoTo 52, q + 1) else (m, q)
  if q > 971 then .infinite else .finite m q

/-- The double `digits · 10 ^ exponent` reads as. An exponent far outside a double's
    range is settled by the number of digits alone. -/
def Double.ofDecimal (digits : Nat) (exponent : Int) : Double :=
  let magnitude : Int := (Nat.toDigits 10 digits).length + exponent
  if digits = 0 || magnitude < -330 then .finite 0 (-1074)
  else if magnitude > 310 then .infinite
  else if 0 ≤ exponent then .nearest (digits * tenTo exponent.toNat) 1
  else .nearest digits (tenTo (-exponent).toNat)

/-- A finite double as a fraction. -/
def Double.fraction? : Double → Option (Nat × Nat)
  | .finite m q => some (m * twoTo q.toNat, twoTo (-q).toNat)
  | .infinite => none

/-- The double of a natural number. -/
def Double.ofNat (n : Nat) : Double := .nearest n 1

/-- The sum, rounded. -/
def Double.add (x y : Double) : Double :=
  match x.fraction?, y.fraction? with
  | some (a, b), some (c, d) => .nearest (a * d + c * b) (b * d)
  | _, _ => .infinite

/-- The product with a natural number that a double holds, rounded. -/
def Double.scale (x : Double) (n : Nat) : Double :=
  match x.fraction? with
  | some (a, b) => .nearest (a * n) b
  | none => .infinite

end PhpSharp.Decimal
