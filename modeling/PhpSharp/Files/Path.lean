/-
  Paths: texts whose segments are separated by slashes.

  * `join` puts one path behind another and changes neither;
  * `parents` are the directories that a path names on its way, the nearest first. Empty
    segments and segments `.` at the end of a path name nothing of their own.
-/

namespace PhpSharp

/-- A path, as written. -/
structure Path where
  text : String
  deriving DecidableEq, Repr

namespace Path

/-- Whether the path starts at the root. -/
def isAbsolute (p : Path) : Bool := p.text.toList.head? == some '/'

/-- Whether a slash has to be put behind the path before another one is. -/
def needsSlash (p : Path) : Bool :=
  match p.text.toList.getLast? with
  | none => false
  | some c => c != '/'

/-- The path `q` seen from `p`. -/
def join (p q : Path) : Path :=
  if q.isAbsolute then q
  else if p.needsSlash then ⟨p.text ++ "/" ++ q.text⟩
  else ⟨p.text ++ q.text⟩

/-- The path of an entry of a directory. -/
def entry (p : Path) (name : String) : Path := p.join ⟨name⟩

/-- The start of a path that is no segment: the root or the directory `.` -/
def lead : List Char → List Char
  | '/' :: _ => ['/']
  | ['.'] => ['.']
  | '.' :: '/' :: _ => ['.']
  | _ => []

/-- Whether a segment names nothing of its own. -/
def isIdle (segment : List Char) : Bool := segment = [] || segment = ['.']

/-- The segments behind the lead, last first. -/
def segments (cs : List Char) : List (List Char) := ((cs.drop (lead cs).length).splitOn '/').reverse

/-- The paths that are left when segments, last first, are dropped one by one. -/
def shorter (lead : List Char) : List (List Char) → List Path
  | [] => if lead = ['.'] then [⟨""⟩] else []
  | segment :: before =>
    if isIdle segment then shorter lead before
    else
      let kept := (before.dropWhile isIdle).reverse
      ⟨String.ofList (lead ++ ['/'].intercalate kept)⟩ :: shorter lead before

/-- The directories on the way to the path, the nearest first. -/
def parents (p : Path) : List Path := shorter (lead p.text.toList) (segments p.text.toList)

/-- The directory that the path is in. The root and the empty path are in none. -/
def parent? (p : Path) : Option Path := p.parents.head?

/-- The last segment, unless it leads upwards. -/
def fileName? (p : Path) : Option (List Char) :=
  ((segments p.text.toList).dropWhile isIdle).head?.filter (· ≠ ['.', '.'])

/-- What follows the last point of the file name, if something stands before it. -/
def extension? (p : Path) : Option String :=
  p.fileName?.bind fun name =>
    match name.reverse.dropWhile (· ≠ '.') with
    | _ :: _ :: _ => some (String.ofList (name.reverse.takeWhile (· ≠ '.')).reverse)
    | _ => none

/-- The names on the way from the root or the working directory. -/
def names (p : Path) : List String :=
  ((p.text.toList.splitOn '/').filter (· ≠ [])).map String.ofList

/-- Whether the path ends with a slash, so that it can only name a directory. -/
def endsWithSlash (p : Path) : Bool := p.text.toList.getLast? == some '/'

end Path

end PhpSharp
