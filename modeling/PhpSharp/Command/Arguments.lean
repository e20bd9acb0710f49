/-
  The command line: a command with options, some of which take a value.

  * an option is written `--name value`, `--name=value`, `-n value`, `-nvalue` or `-n=value`,
    and short ones without a value can share a dash;
  * an option waits for its value (`Reading.waiting?`), and is settled when the next one comes
    or the arguments end. Only then a value is looked at, so that an argument which is not
    known at all is reported before a value that is wrong;
  * `Invocation.parse` reads the arguments of a program.
-/
import PhpSharp.Decimal.Power
import PhpSharp.Files.Path
import PhpSharp.Sdk.Kind

namespace PhpSharp.Command

/-- What is wrong with a command line, or what it asks for instead of a command. -/
inductive UsageError
  /-- An option or a further word is not known. -/
  | unknownArgument
  /-- There is no command of that name. -/
  | invalidSubcommand
  /-- A value is missing or not one of those that are allowed. -/
  | invalidValue
  /-- A value is not of the right form. -/
  | valueValidation
  /-- An option is given twice. -/
  | argumentConflict
  /-- An option without a value is given one. -/
  | tooManyValues
  /-- Help is asked for. -/
  | displayHelp
  /-- There are no arguments. -/
  | displayHelpOnMissing
  /-- There is no command. -/
  | missingSubcommand
  deriving DecidableEq, Repr

/-- The label of an error. -/
def UsageError.label : UsageError → String
  | .unknownArgument => "UnknownArgument"
  | .invalidSubcommand => "InvalidSubcommand"
  | .invalidValue => "InvalidValue"
  | .valueValidation => "ValueValidation"
  | .argumentConflict => "ArgumentConflict"
  | .tooManyValues => "TooManyValues"
  | .displayHelp => "DisplayHelp"
  | .displayHelpOnMissing => "DisplayHelpOnMissingArgumentOrSubcommand"
  | .missingSubcommand => "MissingSubcommand"

/-! ## Options -/

/-- The options of all commands. -/
inductive Flag
  | help
  | verbose
  | config
  | sdkRoot
  | output
  | jobs
  | dryRun
  | json
  | kind
  | path
  deriving DecidableEq, Repr

namespace Flag

/-- The long name of an option. -/
def long : Flag → String
  | .help => "help"
  | .verbose => "verbose"
  | .config => "config"
  | .sdkRoot => "sdk-root"
  | .output => "output"
  | .jobs => "jobs"
  | .dryRun => "dry-run"
  | .json => "json"
  | .kind => "kind"
  | .path => "path"

/-- The short name of an option. -/
def short? : Flag → Option Char
  | .help => some 'h'
  | .verbose => some 'v'
  | .config => some 'c'
  | .output => some 'o'
  | .jobs => some 'j'
  | .path => some 'p'
  | .sdkRoot | .dryRun | .json | .kind => none

/-- Whether an option takes a value. -/
def takesValue : Flag → Bool
  | .help | .verbose | .dryRun | .json => false
  | .config | .sdkRoot | .output | .jobs | .kind | .path => true

end Flag

/-- The values of the options that were given. -/
structure Options where
  verbose : Bool := false
  config? : Option Path := none
  sdkRoot? : Option Path := none
  output? : Option Path := none
  jobs? : Option Nat := none
  dryRun : Bool := false
  json : Bool := false
  kind? : Option Sdk.Kind := none
  path? : Option Path := none
  deriving DecidableEq, Repr

/-- A value read by `read`, for an option that may be given once. -/
def setOnce {α : Type} (current? : Option α) (value? : Option String)
    (read : String → Except UsageError α) : Except UsageError (Option α) :=
  match value?, current? with
  | none, _ => .error .invalidValue
  | some _, some _ => .error .argumentConflict
  | some value, none => (read value).map some

/-- An option without a value, which may be given once. -/
def raiseOnce (current : Bool) : Except UsageError Bool :=
  if current then .error .argumentConflict else .ok true

/-- A path; an empty one is none. -/
def readPath (value : String) : Except UsageError Path :=
  if value = "" then .error .invalidValue else .ok ⟨value⟩

/-- A number of 64 bits in decimal digits, maybe with a plus sign. -/
def readNumber (value : String) : Except UsageError Nat :=
  let digits := match value.toList with
    | '+' :: cs => cs
    | cs => cs
  if digits ≠ [] && digits.all Char.isDigit then
    let n := digits.foldl (fun n c => n * 10 + (c.toNat - '0'.toNat)) 0
    if n < Decimal.twoTo 64 then .ok n else .error .valueValidation
  else .error .valueValidation

/-- A kind by its key, in lower case. -/
def readKind (value : String) : Except UsageError Sdk.Kind :=
  match Sdk.Kind.all.find? fun k => k.key == value with
  | some k => .ok k
  | none => .error .invalidValue

/-- The options with one more, and its value if there is one. -/
def Options.give (o : Options) (flag : Flag) (value? : Option String) : Except UsageError Options :=
  match flag with
  | .help => .error .displayHelp
  | .verbose => (raiseOnce o.verbose).map fun verbose => { o with verbose }
  | .dryRun => (raiseOnce o.dryRun).map fun dryRun => { o with dryRun }
  | .json => (raiseOnce o.json).map fun json => { o with json }
  | .config => (setOnce o.config? value? readPath).map fun config? => { o with config? }
  | .sdkRoot => (setOnce o.sdkRoot? value? readPath).map fun sdkRoot? => { o with sdkRoot? }
  | .output => (setOnce o.output? value? readPath).map fun output? => { o with output? }
  | .path => (setOnce o.path? value? readPath).map fun path? => { o with path? }
  | .jobs => (setOnce o.jobs? value? readNumber).map fun jobs? => { o with jobs? }
  | .kind => (setOnce o.kind? value? readKind).map fun kind? => { o with kind? }

/-! ## Reading -/

/-- Arguments that are read so far. -/
structure Reading where
  options : Options := {}
  /-- The option that was read last and its value, if that has come. -/
  waiting? : Option (Flag × Option String) := none
  deriving DecidableEq, Repr

namespace Reading

/-- The options, with the one that is waiting. -/
def settle (r : Reading) : Except UsageError Options :=
  match r.waiting? with
  | none => .ok r.options
  | some (flag, value?) => r.options.give flag value?

/-- Goes on with an option, which waits for its value if it takes one. -/
def take (r : Reading) (flag : Flag) : Except UsageError Reading :=
  match r.settle with
  | .error e => .error e
  | .ok options =>
    if flag.takesValue then .ok { options, waiting? := some (flag, none) }
    else (options.give flag none).map fun options => { options }

/-- Goes on with an option that has its value with it. -/
def attach (r : Reading) (flag : Flag) (value : List Char) : Except UsageError Reading :=
  match r.settle with
  | .error e => .error e
  | .ok options => (options.give flag (some (String.ofList value))).map fun options => { options }

/-- Reads short options after their dash. -/
def readShort (known : List Flag) (r : Reading) : List Char → Except UsageError Reading
  | [] => .ok r
  | c :: cs =>
    match known.find? fun f => f.short? == some c with
    | none => .error .unknownArgument
    | some flag =>
      if flag.takesValue then
        match cs with
        | [] => r.take flag
        | '=' :: value => r.attach flag value
        | value => r.attach flag value
      else match r.take flag with
        | .error e => .error e
        | .ok r => readShort known r cs

/-- Reads a long option after its dashes. -/
def readLong (known : List Flag) (r : Reading) (cs : List Char) : Except UsageError Reading :=
  match known.find? fun f => f.long.toList == cs.takeWhile (· ≠ '=') with
  | none => .error .unknownArgument
  | some flag =>
    match flag.takesValue, cs.dropWhile (· ≠ '=') with
    | true, _ :: value => r.attach flag value
    | false, _ :: _ => .error .tooManyValues
    | _, [] => r.take flag

/-- Reads an argument that starts with a dash and goes on; `none` if it is a word. -/
def readDashed? (known : List Flag) (r : Reading) (argument : String) :
    Option (Except UsageError Reading) :=
  match argument.toList with
  | '-' :: '-' :: cs => some (r.readLong known cs)
  | '-' :: c :: cs => some (r.readShort known (c :: cs))
  | _ => none

/-- Reads the arguments of a command. After `--` only words may follow, and commands take
    none. -/
def readAll (known : List Flag) (r : Reading) : List String → Except UsageError Options
  | [] => r.settle
  | argument :: rest =>
    if argument = "--" then if rest = [] then r.settle else .error .unknownArgument
    else match r.readDashed? known argument with
      | some (.error e) => .error e
      | some (.ok r) => readAll known r rest
      | none =>
        match r.waiting? with
        | some (flag, none) => readAll known { r with waiting? := some (flag, some argument) } rest
        | _ => .error .unknownArgument

end Reading

/-! ## Commands -/

/-- The commands. -/
inductive Name
  | convert
  | inspect
  | initConfig
  deriving DecidableEq, Repr

namespace Name

/-- All commands. -/
def all : List Name := [.convert, .inspect, .initConfig]

/-- The word for a command. -/
def word : Name → String
  | .convert => "convert"
  | .inspect => "inspect"
  | .initConfig => "init-config"

/-- The command of a word. -/
def ofWord? (word : String) : Option Name := all.find? fun n => n.word == word

/-- The options of a command. -/
def flags : Name → List Flag
  | .convert => [.help, .verbose, .config, .sdkRoot, .output, .jobs, .dryRun, .json]
  | .inspect => [.help, .verbose, .config, .sdkRoot, .kind]
  | .initConfig => [.help, .verbose, .path]

end Name

/-- The word that asks for help. -/
def helpWord : String := "help"

/-- What a program is asked to do. -/
structure Invocation where
  name : Name
  options : Options
  deriving DecidableEq, Repr

namespace Invocation

/-- What follows the word `help`: a command or nothing. -/
def readHelp : List String → UsageError
  | [] => .displayHelp
  | [word] => if word = helpWord || (Name.ofWord? word).isSome then .displayHelp
    else .invalidSubcommand
  | _ => .invalidSubcommand

/-- Reads a command and its options. -/
def readCommand (isVerbose : Bool) (name : Name) (arguments : List String) :
    Except UsageError Invocation :=
  (Reading.readAll name.flags {} arguments).map fun options =>
    ⟨name, { options with verbose := isVerbose || options.verbose }⟩

/-- Reads the arguments of a program, after those that gave `r`. -/
def readFrom (r : Reading) : List String → Except UsageError Invocation
  | [] => .error (if r.options.verbose then .missingSubcommand else .displayHelpOnMissing)
  | argument :: rest =>
    if argument = helpWord then .error (readHelp rest)
    else match Name.ofWord? argument with
      | some name => readCommand r.options.verbose name rest
      | none =>
        if argument = "--" then
          match rest with
          | [] => .error (if r.options.verbose then .missingSubcommand else .displayHelpOnMissing)
          | word :: _ => .error (if word = helpWord || (Name.ofWord? word).isSome then
              .unknownArgument else .invalidSubcommand)
        else match r.readDashed? [.help, .verbose] argument with
          | none => .error .invalidSubcommand
          | some (.error e) => .error e
          | some (.ok r) => readFrom r rest

/-- Reads the arguments of a program. -/
def parse (arguments : List String) : Except UsageError Invocation := readFrom {} arguments

end Invocation

end PhpSharp.Command
