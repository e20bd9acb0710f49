/-
  One line of description for a method: the first paragraph of its documentation comment,
  or its name taken apart into words.
-/
import PhpSharp.Text.Blank
import PhpSharp.Php.ClassFile.Basic

namespace PhpSharp.Reflection

/-! ## From names -/

/-- The name with its first letter in upper case: `getAds` gives `GetAds`. -/
def capitalize (name : String) : String :=
  match name.toList with
  | [] => ""
  | c :: cs => String.ofList (Text.upper c ++ cs)

/-- Whether a word starts with `c` after the character `previous`. -/
def startsWord (previous c : Char) : Bool :=
  Text.isUpper c && (Text.isLower previous || previous.isDigit)

/-- The words of a name after the character `previous?`. `last?` is the last character written,
    none before the first; the first letter goes to upper case and all others to lower. -/
def spellOut (previous? last? : Option Char) : List Char → List Char
  | [] => []
  | c :: cs =>
    if c = '_' then
      if last? = none || last? = some ' ' then spellOut (some c) last? cs
      else ' ' :: spellOut (some c) (some ' ') cs
    else
      let gap := if previous?.any (startsWord · c) then [' '] else []
      let letters := if last? = none then Text.upper c else Text.lower c
      gap ++ letters ++ spellOut (some c) letters.getLast? cs

/-- A name as a sentence: `getAdSets` gives `Get ad sets`. -/
def humanize (name : String) : String :=
  String.ofList (Text.trimEnd (spellOut none none name.toList))

/-! ## From comments -/

/-- A comment without the openings `/**` in front. -/
def dropOpenings : List Char → List Char
  | '/' :: '*' :: '*' :: cs => dropOpenings cs
  | cs => cs

/-- A comment, last character first, without the closings `*/` behind. -/
def dropClosings : List Char → List Char
  | '/' :: '*' :: cs => dropClosings cs
  | cs => cs

/-- What is written in a documentation comment. -/
def commentText (doc : List Char) : List Char :=
  (dropClosings (dropOpenings doc).reverse).reverse

/-- A line of a comment without the stars in front of it. -/
def bareLine (line : List Char) : List Char :=
  Text.trim ((Text.trim line).dropWhile (· = '*'))

/-- The first lines that are not empty, up to an empty line or a tag. -/
def firstParagraph (lines : List (List Char)) : List (List Char) :=
  (lines.dropWhile (· = [])).takeWhile fun line => line ≠ [] && line.head? ≠ some '@'

/-- The first paragraph of a documentation comment on one line, if it has one. -/
def summary? (doc : String) : Option String :=
  let paragraph := firstParagraph ((Text.lines (commentText doc.toList)).map bareLine)
  let text := Text.trim (Text.dropEndWhile (· = '.') ([' '].intercalate paragraph))
  if text = [] then none else some (String.ofList text)

/-- The description of a method. -/
def documentation (m : Php.MethodDecl) : String :=
  (m.doc?.bind summary?).getD (humanize m.name)

end PhpSharp.Reflection
