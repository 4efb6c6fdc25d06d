import CodeSurvey.Path

/-!
# Arguments

What a command line asks for. Arguments are read one by one. An option has a long name, behind two
dashes, and may have a short one, behind a single dash; its value stands behind an equals sign or
in the next argument, for a short option also right behind its letter, and short options without
values can be put together. Two dashes alone make all later arguments plain. The first fault ends
the reading, and so does a question for help or for the version, whichever comes first.
-/

namespace CodeSurvey.CommandLine

/-- How a report is written. -/
inductive OutputFormat where
  | summary
  | json
deriving Repr, DecidableEq

/-- What is scanned and how. -/
structure Target where
  dir : String
  exclude : List String
  noVcs : Bool
  jobs : Option Nat
deriving Repr, DecidableEq

/-- What is to be done. -/
inductive Command where
  /-- Write a report, to a file if one is given. -/
  | scan (target : Target) (format : OutputFormat) (output : Option String)
  /-- List the edges between projects. -/
  | edges (target : Target)
deriving Repr, DecidableEq

/-- What a command line asks for. -/
inductive Request where
  | run (config : Option String) (command : Command)
  /-- The version, under the name of the command that was asked. -/
  | version (program : String)
  | help
  /-- The arguments make no sense. -/
  | misuse
deriving Repr, DecidableEq

/-- The options. -/
inductive Flag where
  | config
  | verbose
  | noColor
  | exclude
  | noVcs
  | jobs
  | format
  | output
  | help
  | version
deriving Repr, DecidableEq

namespace Flag

/-- The long name of an option. -/
def long : Flag → String
  | config => "config"
  | verbose => "verbose"
  | noColor => "no-color"
  | exclude => "exclude"
  | noVcs => "no-vcs"
  | jobs => "jobs"
  | format => "format"
  | output => "output"
  | help => "help"
  | version => "version"

/-- The short name of an option, if it has one. -/
def short? : Flag → Option Char
  | config => some 'c'
  | verbose => some 'v'
  | exclude => some 'e'
  | jobs => some 'j'
  | format => some 'f'
  | output => some 'o'
  | help => some 'h'
  | version => some 'V'
  | noColor => none
  | noVcs => none

/-- Whether an option has a value. -/
def takesValue : Flag → Bool
  | config => true
  | exclude => true
  | jobs => true
  | format => true
  | output => true
  | _ => false

/-- The options that every command knows. -/
def everywhere : List Flag := [config, verbose, noColor, help, version]

/-- The options of a command with a target. -/
def ofTarget : List Flag := everywhere ++ [exclude, noVcs, jobs]

/-- The options of the command that writes a report. -/
def ofScan : List Flag := ofTarget ++ [format, output]

end Flag

/-- The options and the directory that have been given. -/
structure Given where
  config : Option String := none
  verbose : Bool := false
  noColor : Bool := false
  exclude : List String := []
  noVcs : Bool := false
  jobs : Option Nat := none
  format : Option OutputFormat := none
  output : Option String := none
  dir : Option String := none
deriving Repr, DecidableEq

/-- Why the reading of arguments ends before the last. -/
inductive Halt where
  | misuse
  | help
  | version
deriving Repr, DecidableEq

/-- The largest number of workers that can be asked for. -/
def maxJobs : Nat := UInt64.size - 1

/-- The number that decimal digits spell, with or without a plus sign. -/
def jobs? (text : String) : Option Nat :=
  let digits :=
    match text.toList with
    | '+' :: rest => rest
    | rest => rest
  if digits.isEmpty || !digits.all Char.isDigit then none
  else
    let value := digits.foldl (fun value c => 10 * value + (c.toNat - 0x30)) 0
    if value ≤ maxJobs then some value else none

/-- The format with a given name. -/
def format? (text : String) : Option OutputFormat :=
  if text = "summary" then some .summary else if text = "json" then some .json else none

/-- Splits a text at its commas; `current` holds the characters since the last one, reversed. -/
def splitCommasFrom (done : List String) (current : List Char) : List Char → List String
  | [] => (String.ofList current.reverse :: done).reverse
  | c :: rest =>
    if c = ',' then splitCommasFrom (String.ofList current.reverse :: done) [] rest
    else splitCommasFrom done (c :: current) rest

/-- The stretches of a text between its commas. -/
def splitCommas (text : String) : List String :=
  splitCommasFrom [] [] text.toList

namespace Given

/-- Takes note of an option. Only names to ignore can be given more than once. -/
def note (given : Given) (flag : Flag) (value : String) : Except Halt Given :=
  match flag with
  | .help => .error .help
  | .version => .error .version
  | .exclude => .ok { given with exclude := given.exclude ++ splitCommas value }
  | .verbose => if given.verbose then .error .misuse else .ok { given with verbose := true }
  | .noColor => if given.noColor then .error .misuse else .ok { given with noColor := true }
  | .noVcs => if given.noVcs then .error .misuse else .ok { given with noVcs := true }
  | .config =>
    if given.config.isSome then .error .misuse else .ok { given with config := some value }
  | .output =>
    if given.output.isSome then .error .misuse else .ok { given with output := some value }
  | .jobs =>
    match given.jobs, jobs? value with
    | none, some jobs => .ok { given with jobs := some jobs }
    | _, _ => .error .misuse
  | .format =>
    match given.format, format? value with
    | none, some format => .ok { given with format := some format }
    | _, _ => .error .misuse

/-- Takes note of a plain argument: the directory, once. -/
def notePlain (given : Given) (text : String) : Except Halt Given :=
  if given.dir.isSome then .error .misuse else .ok { given with dir := some text }

/-- The target that was given, if a directory was. -/
def target? (given : Given) : Option Target :=
  given.dir.map fun dir => ⟨dir, given.exclude, given.noVcs, given.jobs⟩

end Given

/-- How an argument looks. -/
inductive Shape where
  | dashes
  /-- A long option, with the value behind its equals sign if there is one. -/
  | long (name : String) (value : Option String)
  /-- Short options. -/
  | short (letters : List Char)
  | plain
deriving Repr, DecidableEq

/-- How an argument looks. -/
def shape (argument : String) : Shape :=
  match argument.toList with
  | ['-', '-'] => .dashes
  | '-' :: '-' :: rest =>
    let name := String.ofList (rest.takeWhile (· != '='))
    match rest.dropWhile (· != '=') with
    | [] => .long name none
    | _ :: value => .long name (some (String.ofList value))
  | '-' :: c :: rest => .short (c :: rest)
  | _ => .plain

/-- How far the arguments have been read. -/
structure ArgumentReader where
  given : Given := {}
  /-- The option that waits for its value. -/
  waiting : Option Flag := none
  /-- Whether all arguments to come are plain. -/
  plainOnly : Bool := false
deriving Repr, DecidableEq

namespace ArgumentReader

/-- Reads a long option. -/
def readLong (reader : ArgumentReader) (flags : List Flag) (name : String)
    (value : Option String) : Except Halt ArgumentReader :=
  match flags.find? (·.long == name), value with
  | none, _ => .error .misuse
  | some flag, some value =>
    if flag.takesValue then (reader.given.note flag value).map ({ reader with given := · })
    else .error .misuse
  | some flag, none =>
    if flag.takesValue then .ok { reader with waiting := some flag }
    else (reader.given.note flag "").map ({ reader with given := · })

/-- Reads short options that stand together. -/
def readShort (reader : ArgumentReader) (flags : List Flag) :
    List Char → Except Halt ArgumentReader
  | [] => .ok reader
  | c :: rest =>
    match flags.find? (·.short? == some c) with
    | none => .error .misuse
    | some flag =>
      if flag.takesValue then
        match rest with
        | [] => .ok { reader with waiting := some flag }
        | '=' :: value =>
          (reader.given.note flag (String.ofList value)).map ({ reader with given := · })
        | value => (reader.given.note flag (String.ofList value)).map ({ reader with given := · })
      else
        match reader.given.note flag "" with
        | .error halt => .error halt
        | .ok given => readShort { reader with given } flags rest

/-- Reads an argument where no value is waited for, plain ones by `plain`. -/
def readArgument (reader : ArgumentReader) (flags : List Flag)
    (plain : Given → String → Except Halt Given) (argument : String) :
    Except Halt ArgumentReader :=
  if reader.plainOnly then (plain reader.given argument).map ({ reader with given := · })
  else
    match shape argument with
    | .dashes => .ok { reader with plainOnly := true }
    | .long name value => reader.readLong flags name value
    | .short letters => reader.readShort flags letters
    | .plain => (plain reader.given argument).map ({ reader with given := · })

/-- Reads an argument. A value that is waited for must not look like an option. -/
def read (reader : ArgumentReader) (flags : List Flag)
    (plain : Given → String → Except Halt Given) (argument : String) :
    Except Halt ArgumentReader :=
  match reader.waiting with
  | none => reader.readArgument flags plain argument
  | some flag =>
    if shape argument = .plain then
      (reader.given.note flag argument).map ({ reader with given := ·, waiting := none })
    else .error .misuse

/-- What was given, if no value is missing. -/
def finish (reader : ArgumentReader) : Except Halt Given :=
  if reader.waiting.isSome then .error .misuse else .ok reader.given

end ArgumentReader

/-- Reads the arguments of a command with a target. -/
def readTarget (flags : List Flag) (arguments : List String) : Except Halt Given := do
  let reader ← arguments.foldlM (fun reader argument =>
    ArgumentReader.read reader flags Given.notePlain argument) {}
  reader.finish

/-- What stands in front of a command: the options, and the name of the command with the arguments
behind it. -/
def readFront (reader : ArgumentReader) : List String → Except Halt (Given × String × List String)
  | [] => .error .misuse
  | argument :: rest =>
    if reader.waiting.isNone && !reader.plainOnly && shape argument = .plain then
      .ok (reader.given, argument, rest)
    else
      match reader.read Flag.everywhere (fun _ _ => .error .misuse) argument with
      | .error halt => .error halt
      | .ok reader => readFront reader rest

/-- The name of the program. -/
def programName : String := "atlas"

/-- The version of the program. -/
def programVersion : String := "0.1.0"

/-- What ends the reading of the arguments of a program or command with a name. -/
def Halt.request (program : String) : Halt → Request
  | misuse => .misuse
  | help => .help
  | version => .version program

/-- The request for a command with a target. The settings file is the one named behind the command,
failing that in front of it, and failing that by the environment. -/
def requestOf (front : Given) (environment : Option String) (name : String) (flags : List Flag)
    (command : Given → Target → Command) (arguments : List String) : Request :=
  match readTarget flags arguments with
  | .error halt => halt.request (programName ++ "-" ++ name)
  | .ok given =>
    match given.target? with
    | none => .misuse
    | some target =>
      .run (given.config.orElse fun _ => front.config.orElse fun _ => environment)
        (command given target)

/-- The request for help with a command. -/
def helpRequest : List String → Request
  | [] => .help
  | [name] => if name ∈ ["scan", "edges", "help"] then .help else .misuse
  | _ => .misuse

/-- What a command line asks for. `environment` names the settings file if no argument does. -/
def request (arguments : List String) (environment : Option String) : Request :=
  match readFront {} arguments with
  | .error halt => halt.request programName
  | .ok (front, name, rest) =>
    if name = "scan" then
      requestOf front environment name Flag.ofScan
        (fun given target => .scan target (given.format.getD .summary) given.output) rest
    else if name = "edges" then
      requestOf front environment name Flag.ofTarget (fun _ target => .edges target) rest
    else if name = "help" then helpRequest rest
    else .misuse

end CodeSurvey.CommandLine
