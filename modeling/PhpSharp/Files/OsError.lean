/-
  Why the operating system refuses to do something with a file.
-/

namespace PhpSharp.Files

/-- A refusal. -/
inductive OsError
  /-- A directory on the way, or the file itself, does not exist. -/
  | notFound
  /-- Something of the name exists. -/
  | alreadyExists
  /-- A file stands where a directory has to be. -/
  | notDirectory
  /-- A directory stands where a file has to be. -/
  | isDirectory
  /-- A name has more bytes than a directory can hold. -/
  | nameTooLong
  /-- The directories `.` and `..` cannot be replaced. -/
  | busy
  /-- A call was given a name it cannot take. -/
  | invalidArgument
  /-- A name has a NUL character. -/
  | nulInName
  /-- What was read is not text. -/
  | notText
  /-- None of the directories of a path could be made. -/
  | noBase
  /-- A reason in the system's own words. -/
  | other (text : String)
  deriving DecidableEq, Repr

/-- The refusal in words. -/
def OsError.message : OsError → String
  | .notFound => "No such file or directory (os error 2)"
  | .alreadyExists => "File exists (os error 17)"
  | .notDirectory => "Not a directory (os error 20)"
  | .isDirectory => "Is a directory (os error 21)"
  | .nameTooLong => "File name too long (os error 36)"
  | .busy => "Device or resource busy (os error 16)"
  | .invalidArgument => "Invalid argument (os error 22)"
  | .nulInName => "file name contained an unexpected NUL byte"
  | .notText => "stream did not contain valid UTF-8"
  | .noBase => "failed to create whole tree"
  | .other text => text

/-- The refusal that the system gives a number to, with the system's words for it. -/
def OsError.ofCode (code : Nat) (words : String) : OsError :=
  match code with
  | 2 => .notFound
  | 16 => .busy
  | 17 => .alreadyExists
  | 20 => .notDirectory
  | 21 => .isDirectory
  | 22 => .invalidArgument
  | 36 => .nameTooLong
  | _ => .other s!"{words} (os error {code})"

end PhpSharp.Files
