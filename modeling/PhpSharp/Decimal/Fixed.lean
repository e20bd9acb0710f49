/-
  A double with a fixed number of decimal places: its exact value, rounded to the nearest
  point of the grid, a tie to the even one.
-/
import PhpSharp.Decimal.Shortest

namespace PhpSharp.Decimal

/-- The text of a double with `places` digits after the point. -/
def Double.fixed (places : Nat) : Double → String
  | .infinite => "inf"
  | .finite m q =>
    let units := roundDiv (m * twoTo q.toNat * tenTo places) (twoTo (-q).toNat)
    let ds := digitChars units
    let padded := List.replicate (places + 1 - ds.length) '0' ++ ds
    let whole := padded.length - places
    String.ofList (padded.take whole ++ if places = 0 then [] else '.' :: padded.drop whole)

end PhpSharp.Decimal
