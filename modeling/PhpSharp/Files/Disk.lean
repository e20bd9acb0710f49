/-
  A disk: files and directories by their location, which is the list of names that lead to
  them from the root.

  * `get?`, `put` and `erase` are the disk as a map (`get?_put`, `get?_erase`);
  * `locate` follows a path from a directory, as the operating system does: every name on
    the way has to be that of a directory;
  * the operations below it are the calls a program makes. One that is refused leaves the
    disk as it is.
-/
import PhpSharp.Files.OsError
import PhpSharp.Files.Path

namespace PhpSharp.Files

/-- The names that lead to a place from the root. -/
abbrev Location := List String

/-- What a file holds. -/
inductive Content
  | text (s : String)
  /-- Bytes that are no text -/
  | binary (bytes : List UInt8)
  deriving DecidableEq

/-- What is at a location. -/
inductive Node
  | file (content : Content)
  | directory
  deriving DecidableEq

/-- Files and directories in the order of their creation. The root is not listed. -/
structure Disk where
  entries : List (Location × Node) := []
  deriving DecidableEq

namespace Disk

/-! ## As a map -/

/-- What is at a location. -/
def get? (d : Disk) (l : Location) : Option Node :=
  if l = [] then some .directory else d.entries.lookup l

/-- Replaces the node of a location, or adds it behind all others. -/
def putEntry (l : Location) (n : Node) : List (Location × Node) → List (Location × Node)
  | [] => [(l, n)]
  | (k, old) :: rest => if k = l then (l, n) :: rest else (k, old) :: putEntry l n rest

/-- The disk with a node at a location. -/
def put (d : Disk) (l : Location) (n : Node) : Disk := ⟨putEntry l n d.entries⟩

/-- The disk without what is at a location. -/
def erase (d : Disk) (l : Location) : Disk := ⟨d.entries.filter fun e => e.1 ≠ l⟩

/-- The disk without what is at a location and below it. -/
def eraseAll (d : Disk) (l : Location) : Disk := ⟨d.entries.filter fun e => !l.isPrefixOf e.1⟩

/-- The names in a directory, in the order of their creation. -/
def children (d : Disk) (l : Location) : List String :=
  d.entries.filterMap fun (k, _) =>
    match k.getLast? with
    | some name => if k.dropLast = l then some name else none
    | none => none

/-- The first entry decides a look-up if it has the name. -/
theorem lookup_cons_eq (k e : Location) (n : Node) (es : List (Location × Node)) :
    ((e, n) :: es).lookup k = if k = e then some n else es.lookup k := by
  rw [List.lookup_cons]
  split <;> simp_all

theorem lookup_putEntry (l k : Location) (n : Node) (es : List (Location × Node)) :
    (putEntry l n es).lookup k = if k = l then some n else es.lookup k := by
  induction es with
  | nil => simp only [putEntry, lookup_cons_eq]
  | cons e es ih =>
    obtain ⟨e, old⟩ := e
    by_cases he : e = l
    · subst he
      by_cases hk : k = e <;> simp [putEntry, lookup_cons_eq, hk]
    · rw [putEntry, if_neg he, lookup_cons_eq, lookup_cons_eq, ih]
      by_cases hk : k = e
      · subst hk; simp [he]
      · simp [hk]

/-- What was put at a location is there, and all else is as before. -/
theorem get?_put {d : Disk} {l : Location} {n : Node} (h : l ≠ []) (k : Location) :
    (d.put l n).get? k = if k = l then some n else d.get? k := by
  unfold get? put
  by_cases hk : k = []
  · simp [hk, Ne.symm h]
  · simp [hk, lookup_putEntry]

theorem lookup_filter_ne (l k : Location) (es : List (Location × Node)) :
    (es.filter fun e => e.1 ≠ l).lookup k = if k = l then none else es.lookup k := by
  induction es with
  | nil => simp
  | cons e es ih =>
    obtain ⟨e, n⟩ := e
    rw [lookup_cons_eq, List.filter_cons]
    by_cases he : e = l
    · subst he
      rw [if_neg (by simp), ih]
      by_cases hk : k = e <;> simp [hk]
    · rw [if_pos (by simpa using he), lookup_cons_eq, ih]
      by_cases hk : k = e
      · subst hk; simp [he]
      · simp [hk]

/-- What was erased is gone, and all else is as before. -/
theorem get?_erase {d : Disk} {l : Location} (h : l ≠ []) (k : Location) :
    (d.erase l).get? k = if k = l then none else d.get? k := by
  unfold get? erase
  rw [lookup_filter_ne]
  by_cases hk : k = []
  · simp [hk, Ne.symm h]
  · simp [hk]

/-! ## Paths -/

/-- The most bytes a name can have. -/
def maxName : Nat := 255

/-- The least number of bytes that a path cannot have. -/
def maxPath : Nat := 4096

/-- Follows names from a location. The last of them need not exist. -/
def descend (d : Disk) (l : Location) : List String → Except OsError Location
  | [] => .ok l
  | name :: names =>
    match d.get? l with
    | none => .error .notFound
    | some (.file _) => .error .notDirectory
    | some .directory =>
      if name = "." then d.descend l names
      else if name = ".." then d.descend l.dropLast names
      else if name.utf8ByteSize > maxName then .error .nameTooLong
      else d.descend (l ++ [name]) names

/-- Follows some of the names of a path from a directory. -/
def follow (d : Disk) (base : Location) (p : Path) (names : List String) :
    Except OsError Location :=
  if '\x00' ∈ p.text.toList then .error .nulInName
  else if p.text = "" then .error .notFound
  else if p.text.utf8ByteSize ≥ maxPath then .error .nameTooLong
  else d.descend (if p.isAbsolute then [] else base) names

/-- Follows a path from a directory. -/
def locate (d : Disk) (base : Location) (p : Path) : Except OsError Location :=
  d.follow base p p.names

/-- What a path names. A slash at the end asks for a directory. -/
def stat (d : Disk) (base : Location) (p : Path) : Except OsError (Location × Node) :=
  match d.locate base p with
  | .error e => .error e
  | .ok l =>
    match d.get? l with
    | none => .error .notFound
    | some (.file content) =>
      if p.endsWithSlash then .error .notDirectory else .ok (l, .file content)
    | some .directory => .ok (l, .directory)

/-- Whether a path names a directory. -/
def isDirectory (d : Disk) (base : Location) (p : Path) : Bool :=
  match d.stat base p with
  | .ok (_, .directory) => true
  | _ => false

/-! ## Calls -/

/-- The text of a file. -/
def readText (d : Disk) (base : Location) (p : Path) : Except OsError String :=
  match d.stat base p with
  | .error e => .error e
  | .ok (_, .directory) => .error .isDirectory
  | .ok (_, .file (.text s)) => .ok s
  | .ok (_, .file (.binary _)) => .error .notText

/-- The names in a directory. -/
def list (d : Disk) (base : Location) (p : Path) : Except OsError (List String) :=
  match d.stat base p with
  | .error e => .error e
  | .ok (_, .file _) => .error .notDirectory
  | .ok (l, .directory) => .ok (d.children l)

/-- Makes a directory in one that exists. -/
def makeDirectory (d : Disk) (base : Location) (p : Path) : Except OsError Disk :=
  match d.locate base p with
  | .error e => .error e
  | .ok l =>
    match d.get? l with
    | some _ => .error .alreadyExists
    | none => .ok (d.put l .directory)

/-- Why a path with a slash at the end cannot be written: it asks for a directory, of which the
    last name is not looked at. -/
def slashFault (d : Disk) (base : Location) (p : Path) : OsError :=
  match d.follow base p p.names.dropLast with
  | .error e => e
  | .ok l =>
    match d.get? l with
    | none => .notFound
    | some (.file _) => .notDirectory
    | some .directory => .isDirectory

/-- Writes a file, a new one or in place of another. -/
def writeFile (d : Disk) (base : Location) (p : Path) (content : Content) : Except OsError Disk :=
  if p.endsWithSlash then .error (d.slashFault base p)
  else match d.locate base p with
    | .error e => .error e
    | .ok l =>
      match d.get? l with
      | some .directory => .error .isDirectory
      | _ => .ok (d.put l (.file content))

/-- Whether the last name of a path is that of an entry, not `.`, `..` or the root. -/
def namesEntry (p : Path) : Bool :=
  match p.names.getLast? with
  | none => false
  | some name => name != "." && name != ".."

/-- Moves the file at a location to a path, in place of a file that is there. -/
def replace (d : Disk) (base : Location) (source : Location) (content : Content) (p : Path) :
    Except OsError Disk :=
  match d.locate base p with
  | .error .nulInName => .error .invalidArgument
  | .error e => .error e
  | .ok l =>
    if !namesEntry p then .error .busy
    else if p.endsWithSlash then .error .notDirectory
    else match d.get? l with
      | some .directory => .error .isDirectory
      | _ => .ok ((d.erase source).put l (.file content))

end Disk

end PhpSharp.Files
