/-
  The scalars of TOML: strings in four forms, numbers, truth values and dates.

  A reader takes the characters after the opening of its form and gives the value with the
  characters left; what is not well formed has no value. A number that is well formed and too
  large is nothing (`Document.null`).
-/
import PhpSharp.Decimal.Double
import PhpSharp.Document.Basic
import PhpSharp.Php.StringLiteral

namespace PhpSharp.Document.Toml

/-- A character that may stand in a text as it is: a tab or no control character. -/
def isText (c : Char) : Bool := c = '\t' || (0x20 ≤ c.toNat && c.toNat ≠ 0x7F)

/-! ## Strings -/

/-- The character that a number of hexadecimal digits name, and what follows. -/
def scalarEscape (digits : Nat) (cs : List Char) : Option (Char × List Char) :=
  let ds := cs.take digits
  if ds.length = digits && ds.all Php.isHexDigit then
    let n := Php.numberOf 16 ds
    if n.isValidChar then some (Char.ofNat n, cs.drop digits) else none
  else none

/-- The character of an escape, after the backslash. -/
def escape : List Char → Option (Char × List Char)
  | 'b' :: cs => some ('\x08', cs)
  | 't' :: cs => some ('\t', cs)
  | 'n' :: cs => some ('\n', cs)
  | 'f' :: cs => some ('\x0c', cs)
  | 'r' :: cs => some ('\r', cs)
  | 'e' :: cs => some ('\x1b', cs)
  | '"' :: cs => some ('"', cs)
  | '\\' :: cs => some ('\\', cs)
  | 'x' :: cs => scalarEscape 2 cs
  | 'u' :: cs => scalarEscape 4 cs
  | 'U' :: cs => scalarEscape 8 cs
  | _ => none

/-- A string on one line between double quotes, after the first. `fuel` bounds its length. -/
def basicString (done : List Char) : Nat → List Char → Option (String × List Char)
  | 0, _ | _, [] => none
  | fuel + 1, c :: cs =>
    if c = '"' then some (String.ofList done.reverse, cs)
    else if c = '\\' then
      match escape cs with
      | some (e, rest) => basicString (e :: done) fuel rest
      | none => none
    else if isText c then basicString (c :: done) fuel cs
    else none

/-- A string on one line between apostrophes, after the first. -/
def literalString (done : List Char) : List Char → Option (String × List Char)
  | [] => none
  | c :: cs =>
    if c = '\'' then some (String.ofList done.reverse, cs)
    else if isText c then literalString (c :: done) cs
    else none

/-- Without the line feed that the text starts with. -/
def dropFeed : List Char → List Char
  | '\n' :: cs => cs
  | '\r' :: '\n' :: cs => cs
  | cs => cs

/-- Without the blanks and the ends of lines that the text starts with. -/
def skipBreaks : List Char → List Char
  | ' ' :: cs | '\t' :: cs | '\n' :: cs | '\r' :: '\n' :: cs => skipBreaks cs
  | cs => cs

/-- After a backslash at the end of a line, the next character that is neither a blank nor
    belongs to the end of a line. The line has to end. -/
def continuation (cs : List Char) : Option (List Char) :=
  match cs.dropWhile fun c => c = ' ' || c = '\t' with
  | '\n' :: rest | '\r' :: '\n' :: rest => some (skipBreaks rest)
  | _ => none

/-- The rest of a string over several lines that three quotes close. Up to two more of them
    belong to the string. -/
def closing (quote : Char) (done : List Char) (cs : List Char) : Option (String × List Char) :=
  let quotes := (cs.takeWhile (· = quote)).length
  if quotes < 3 then none
  else
    let extra := min (quotes - 3) 2
    some (String.ofList (done.reverse ++ List.replicate extra quote), cs.drop (extra + 3))

/-- A string over several lines, after the opening. `escapes` tells whether a backslash has a
    meaning, and `fuel` bounds the length. -/
def longString (quote : Char) (escapes : Bool) (done : List Char) :
    Nat → List Char → Option (String × List Char)
  | 0, _ | _, [] => none
  | fuel + 1, c :: cs =>
    match closing quote done (c :: cs) with
    | some result => some result
    | none =>
      if c = '\\' && escapes then
        match continuation cs, escape cs with
        | some rest, _ => longString quote escapes done fuel rest
        | none, some (e, rest) => longString quote escapes (e :: done) fuel rest
        | none, none => none
      else if c = '\r' then
        if cs.head? = some '\n' then longString quote escapes (c :: done) fuel cs else none
      else if isText c || c = '\n' then longString quote escapes (c :: done) fuel cs
      else none

/-- A string of any form. -/
def string (cs : List Char) : Option (String × List Char) :=
  let fuel := cs.length + 1
  match cs with
  | '"' :: '"' :: '"' :: rest => longString '"' true [] fuel (dropFeed rest)
  | '\'' :: '\'' :: '\'' :: rest => longString '\'' false [] fuel (dropFeed rest)
  | '"' :: rest => basicString [] fuel rest
  | '\'' :: rest => literalString [] rest
  | _ => none

/-! ## Numbers -/

/-- Digits of a class without the marks between them. A mark stands between two digits. -/
def digits (isDigit : Char → Bool) (cs : List Char) : Option (List Char) :=
  let marked := cs.head? = some '_' || cs.getLast? = some '_' ||
    (cs.zip cs.tail).any fun (a, b) => a = '_' && b = '_'
  let plain := cs.filter (· ≠ '_')
  if marked || plain = [] || !plain.all isDigit then none else some plain

/-- A number without its sign, and whether it had a minus sign or a plus sign. -/
def unsigned : List Char → List Char × Bool × Bool
  | '-' :: cs => (cs, true, true)
  | '+' :: cs => (cs, false, true)
  | cs => (cs, false, false)

/-- Decimal digits, of which the first is no zero unless it is the only one. -/
def decimal (cs : List Char) : Option (List Char) :=
  (digits Char.isDigit cs).filter fun ds => ds.length = 1 || ds.head? ≠ some '0'

/-- An integer. -/
def integer (cs : List Char) : Option Int :=
  let (body, isNegative, hasSign) := unsigned cs
  let based (base : Nat) (isDigit : Char → Bool) (ds : List Char) : Option Int :=
    if hasSign then none else (digits isDigit ds).map fun ds => (Php.numberOf base ds : Int)
  match body with
  | '0' :: 'x' :: ds => based 16 Php.isHexDigit ds
  | '0' :: 'o' :: ds => based 8 Php.isOctalDigit ds
  | '0' :: 'b' :: ds => based 2 (fun c => c = '0' || c = '1') ds
  | ds => (decimal ds).map fun ds =>
    let n : Int := Php.numberOf 10 ds
    if isNegative then -n else n

/-- An integer as a document. It may have 128 bits, with or without one of them for a sign. -/
def integerDocument (n : Int) : Document :=
  if -(Decimal.twoTo 127 : Int) ≤ n && n < Decimal.twoTo 128 then .integer n else .null

/-- The size of a number with a fraction or an exponent, without its sign. -/
def real (body : List Char) : Option Decimal.Double := do
  let isE (c : Char) : Bool := c = 'e' || c = 'E'
  let mantissa := body.takeWhile fun c => !isE c
  let exponent := body.dropWhile fun c => !isE c
  let fraction := mantissa.dropWhile (· ≠ '.')
  let whole ← decimal (mantissa.takeWhile (· ≠ '.'))
  let places ← if fraction = [] then some [] else digits Char.isDigit (fraction.drop 1)
  let (ds, isNegative, _) := unsigned (exponent.drop 1)
  let e ← if exponent = [] then some ['0'] else digits Char.isDigit ds
  let e : Int := Php.numberOf 10 e
  if fraction = [] && exponent = [] then none
  else some (.ofDecimal (Php.numberOf 10 (whole ++ places))
    ((if isNegative then -e else e) - places.length))

/-- A number with a fraction or an exponent, or one that is not finite. -/
def realDocument (cs : List Char) : Option Document :=
  let body := (unsigned cs).1
  if body = ['i', 'n', 'f'] || body = ['n', 'a', 'n'] then some (.real (String.ofList cs))
  else (real body).map fun
    | .infinite => .null
    | .finite _ _ => .real (String.ofList cs)

/-! ## Dates -/

/-- A number of two digits and what follows. -/
def twoDigits (low high : Nat) : List Char → Option (List Char)
  | a :: b :: cs =>
    if a.isDigit && b.isDigit then
      let n := Php.numberOf 10 [a, b]
      if low ≤ n && n ≤ high then some cs else none
    else none
  | _ => none

/-- What follows a given character. -/
def after (c : Char) : List Char → Option (List Char)
  | d :: cs => if c = d then some cs else none
  | [] => none

/-- The number of days of a month. -/
def daysOf (year month : Nat) : Nat :=
  let isLeap := year % 4 = 0 && (year % 100 ≠ 0 || year % 400 = 0)
  if month = 2 then if isLeap then 29 else 28
  else if month = 4 || month = 6 || month = 9 || month = 11 then 30
  else 31

/-- What follows a date. -/
def date (cs : List Char) : Option (List Char) :=
  let year := cs.take 4
  let month := (cs.drop 5).take 2
  if year.length = 4 && year.all Char.isDigit then do
    let rest ← after '-' (cs.drop 4) >>= twoDigits 1 12 >>= after '-'
    twoDigits 1 (daysOf (Php.numberOf 10 year) (Php.numberOf 10 month)) rest
  else none

/-- What follows a fraction of a second. -/
def fraction : List Char → Option (List Char)
  | '.' :: c :: cs => if c.isDigit then some (cs.dropWhile Char.isDigit) else none
  | '.' :: [] => none
  | cs => some cs

/-- What follows a time of day. The seconds may be missing. -/
def time (cs : List Char) : Option (List Char) := do
  let rest ← twoDigits 0 23 cs >>= after ':' >>= twoDigits 0 59
  match rest with
  | ':' :: rest => twoDigits 0 60 rest >>= fraction
  | rest => some rest

/-- What follows a time zone. -/
def zone : List Char → Option (List Char)
  | [] => some []
  | 'Z' :: cs | 'z' :: cs => some cs
  | '+' :: cs | '-' :: cs => twoDigits 0 23 cs >>= after ':' >>= twoDigits 0 59
  | _ => none

/-- Whether the text is a date, a time of day, or both. -/
def isDate (cs : List Char) : Bool :=
  match date cs with
  | some [] => true
  | some (c :: rest) =>
    (c = 'T' || c = 't' || c = ' ') && (time rest >>= zone) == some []
  | none => time cs == some []

/-! ## Scalars without quotes -/

/-- Whether a scalar without quotes can go on with the character. -/
def isBareChar (c : Char) : Bool :=
  c.isAlphanum || c = '_' || c = '+' || c = '-' || c = '.' || c = ':'

/-- The characters of a scalar without quotes. One blank may stand between a date and a time. -/
def bareText (cs : List Char) : List Char × List Char :=
  let first := cs.takeWhile isBareChar
  match cs.dropWhile isBareChar with
  | ' ' :: c :: rest =>
    if date first = some [] && c.isDigit then
      (first ++ ' ' :: (c :: rest).takeWhile isBareChar, (c :: rest).dropWhile isBareChar)
    else (first, ' ' :: c :: rest)
  | rest => (first, rest)

/-- A scalar without quotes. A date is a table with one member. -/
def bare (cs : List Char) : Option (Document × List Char) :=
  let (text, rest) := bareText cs
  if text = "true".toList then some (.bool true, rest)
  else if text = "false".toList then some (.bool false, rest)
  else match integer text with
    | some n => some (integerDocument n, rest)
    | none =>
      match realDocument text with
      | some d => some (d, rest)
      | none =>
        if isDate text then
          some (.table [("$__toml_private_datetime", .string (String.ofList text))], rest)
        else none

end PhpSharp.Document.Toml
