/-
  Points in time to the second, in the calendar, and their text.
-/

namespace PhpSharp.Text

/-- A second of a day. -/
structure Timestamp where
  year : Int
  month : Nat
  day : Nat
  hour : Nat
  minute : Nat
  second : Nat
  deriving DecidableEq, Repr

/-- Decimal digits with zeros in front, at least `width` characters. -/
def padded (width n : Nat) : List Char :=
  let digits := Nat.toDigits 10 n
  List.replicate (width - digits.length) '0' ++ digits

/-- A year: four digits, with a minus sign before our era and a plus sign where four
    digits are not enough. -/
def yearText (year : Int) : List Char :=
  if year < 0 then '-' :: padded 4 year.natAbs
  else if year > 9999 then '+' :: padded 4 year.toNat
  else padded 4 year.toNat

/-- The text of a point in time: `2024-03-09 10:30:00` -/
def Timestamp.text (t : Timestamp) : String :=
  String.ofList (yearText t.year ++ '-' :: padded 2 t.month ++ '-' :: padded 2 t.day ++
    ' ' :: padded 2 t.hour ++ ':' :: padded 2 t.minute ++ ':' :: padded 2 t.second)

end PhpSharp.Text
