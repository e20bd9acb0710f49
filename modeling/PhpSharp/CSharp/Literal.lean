/-
  C# string literals: how a text is written between the quotes.
-/

namespace PhpSharp.CSharp

/-- A control character: general category `Cc`. -/
def isControl (c : Char) : Bool := c.toNat < 0x20 || (0x7F ≤ c.toNat && c.toNat < 0xA0)

/-- The four hexadecimal digits of a number below `16 ^ 4`. -/
def fourDigits (n : Nat) : List Char :=
  [n / 4096 % 16, n / 256 % 16, n / 16 % 16, n % 16].map Nat.digitChar

/-- How a character is written in a literal. -/
def escapeChar (c : Char) : List Char :=
  if c = '\\' then ['\\', '\\']
  else if c = '"' then ['\\', '"']
  else if c = '\n' then ['\\', 'n']
  else if c = '\r' then ['\\', 'r']
  else if c = '\t' then ['\\', 't']
  else if c = '\x00' then ['\\', '0']
  else if isControl c then '\\' :: 'u' :: fourDigits c.toNat
  else [c]

/-- How a text is written in a literal. -/
def escape (text : String) : String := String.ofList (text.toList.flatMap escapeChar)

end PhpSharp.CSharp
