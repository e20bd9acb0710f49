/-
  The powers of the two bases that numbers are written in.
-/

namespace PhpSharp.Decimal

/-- The number `2 ^ n`. -/
def twoTo (n : Nat) : Nat := Nat.pow 2 n

/-- The number `10 ^ n`. -/
def tenTo (n : Nat) : Nat := Nat.pow 10 n

end PhpSharp.Decimal
