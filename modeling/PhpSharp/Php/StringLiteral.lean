/-
  Quoted strings: where a literal ends and which text it denotes.

  * `splitQuoted` finds the closing quote, stepping over escaped characters;
  * `unquoteSingle` undoes the two escapes of a single-quoted literal;
  * `decodeEscapes` undoes those of a double-quoted literal or a heredoc. What is no
    escape keeps its backslash, and variables in the text stay as written.
-/

namespace PhpSharp.Php

/-- The text up to the first quote that no backslash stands before, and what follows it. -/
def splitQuoted (quote : Char) : List Char → Option (List Char × List Char)
  | [] => none
  | c :: cs =>
    if c = quote then some ([], cs)
    else if c = '\\' then
      match cs with
      | [] => none
      | d :: ds => (splitQuoted quote ds).map fun (body, rest) => (c :: d :: body, rest)
    else (splitQuoted quote cs).map fun (body, rest) => (c :: body, rest)

/-- A literal and what follows it make up the input, the closing quote between them. -/
theorem splitQuoted_eq_some {quote : Char} {cs body rest : List Char}
    (h : splitQuoted quote cs = some (body, rest)) : body ++ quote :: rest = cs := by
  fun_induction splitQuoted quote cs generalizing body rest with
  | case1 => simp at h
  | case2 => simp_all
  | case3 => simp at h
  | case4 _ _ _ ih =>
    obtain ⟨⟨b, r⟩, hb, he⟩ := Option.map_eq_some_iff.1 h
    cases he; simp [ih hb]
  | case5 _ _ _ _ ih =>
    obtain ⟨⟨b, r⟩, hb, he⟩ := Option.map_eq_some_iff.1 h
    cases he; simp [ih hb]

/-- The text up to the first quote and what follows it: no escapes. -/
def splitRaw (quote : Char) : List Char → Option (List Char × List Char)
  | [] => none
  | c :: cs =>
    if c = quote then some ([], cs)
    else (splitRaw quote cs).map fun (body, rest) => (c :: body, rest)

theorem splitRaw_eq_some {quote : Char} {cs body rest : List Char}
    (h : splitRaw quote cs = some (body, rest)) : body ++ quote :: rest = cs := by
  induction cs generalizing body with
  | nil => simp [splitRaw] at h
  | cons c cs ih =>
    by_cases hc : c = quote
    · simp_all [splitRaw]
    · simp only [splitRaw, hc, if_false] at h
      obtain ⟨⟨b, r⟩, hb, he⟩ := Option.map_eq_some_iff.1 h
      cases he; simp [ih hb]

/-- The text of a single-quoted literal: a backslash quotes itself and the quote. -/
def unquoteSingle : List Char → List Char
  | [] => []
  | '\\' :: '\'' :: cs => '\'' :: unquoteSingle cs
  | '\\' :: '\\' :: cs => '\\' :: unquoteSingle cs
  | c :: cs => c :: unquoteSingle cs

/-- The longest run of characters of a class at the start, at most `n` of them. -/
def takeUpTo (n : Nat) (p : Char → Bool) (cs : List Char) : List Char := (cs.take n).takeWhile p

/-- The digits `0` to `7`. -/
def isOctalDigit (c : Char) : Bool := '0' ≤ c && c ≤ '7'

/-- The digits `0` to `9`, `a` to `f` and `A` to `F`. -/
def isHexDigit (c : Char) : Bool :=
  c.isDigit || ('a' ≤ c && c ≤ 'f') || ('A' ≤ c && c ≤ 'F')

/-- The value of a digit in any base up to sixteen. -/
def digitValue (c : Char) : Nat :=
  if c.isDigit then c.toNat - '0'.toNat else c.toLower.toNat - 'a'.toNat + 10

/-- The number that digits spell in a base. -/
def numberOf (base : Nat) (digits : List Char) : Nat :=
  digits.foldl (fun n c => n * base + digitValue c) 0

/-- The character that hexadecimal digits name, a plus sign before them allowed. -/
def scalarOf (digits : List Char) : Option Char :=
  let digits := if digits.head? = some '+' then digits.tail else digits
  if digits = [] || !digits.all isHexDigit then none
  else
    let n := numberOf 16 digits
    if n.isValidChar then some (Char.ofNat n) else none

/-- The character a one-letter escape stands for. -/
def simpleEscape? (quote c : Char) : Option Char :=
  if c = 'n' then some '\n'
  else if c = 't' then some '\t'
  else if c = 'r' then some '\r'
  else if c = 'v' then some '\x0b'
  else if c = 'e' then some '\x1b'
  else if c = 'f' then some '\x0c'
  else if c = '\\' then some '\\'
  else if c = '$' then some '$'
  else if c = quote then some quote
  else none

/-- The text of a double-quoted literal. `\x` takes up to two digits, an octal escape up to
    three, and `\u` a scalar value in braces; one that names no character is kept. -/
def decodeEscapes (quote : Char) : List Char → List Char
  | [] => []
  | c :: cs =>
    if c ≠ '\\' then c :: decodeEscapes quote cs
    else match cs with
      | [] => ['\\']
      | d :: ds =>
        match simpleEscape? quote d with
        | some e => e :: decodeEscapes quote ds
        | none =>
          if d = 'x' then
            let digits := takeUpTo 2 isHexDigit ds
            let decoded :=
              if digits = [] then ['\\', 'x'] else [Char.ofNat (numberOf 16 digits)]
            decoded ++ decodeEscapes quote (ds.drop digits.length)
          else if d = 'u' then
            match ds with
            | '{' :: es =>
              let digits := es.takeWhile (· ≠ '}')
              let decoded := match scalarOf digits with
                | some e => [e]
                | none => '\\' :: 'u' :: '{' :: digits ++ ['}']
              decoded ++ decodeEscapes quote (es.drop (digits.length + 1))
            | other => '\\' :: 'u' :: decodeEscapes quote other
          else if isOctalDigit d then
            let digits := takeUpTo 3 isOctalDigit (d :: ds)
            let n := numberOf 8 digits
            let decoded := if n < 256 then [Char.ofNat n] else '\\' :: digits
            decoded ++ decodeEscapes quote ((d :: ds).drop digits.length)
          else '\\' :: d :: decodeEscapes quote ds
  termination_by cs => cs.length
  decreasing_by all_goals simp only [List.length_cons, List.length_drop]; omega

end PhpSharp.Php
