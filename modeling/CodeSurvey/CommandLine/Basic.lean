import CodeSurvey.CommandLine.Arguments
import CodeSurvey.Json.Printer
import CodeSurvey.Report.Json
import CodeSurvey.Report.Summary
import CodeSurvey.Scan.Stream

/-!
# The command

What a command line does in a file system: what it writes to standard output, its exit code, and
the file system it leaves behind. It exits with zero if all went well, with one after an error,
and with two if the arguments make no sense.
-/

namespace CodeSurvey.CommandLine

/-- Why a command fails. -/
inductive CommandError where
  | settings (path : String) (cause : SettingsError)
  | scanner (cause : ScanError)
  | scan (cause : ScanError)
  | outputNotWritten (path : String)
deriving Repr, DecidableEq

namespace CommandError

/-- The messages for a failure, each the reason for the one before. -/
def messages : CommandError → List String
  | settings path cause => [s!"Failed to load configuration from {path}", cause.message]
  | scanner cause => [s!"Failed to create scanner: {cause.message}"]
  | scan cause => [cause.message]
  | outputNotWritten path => [s!"cannot write to {path}"]

end CommandError

/-- What a command leaves behind. -/
structure Outcome where
  exitCode : Nat
  output : String
  errors : Option CommandError
  system : FileSystem

/-- The settings of a scan after the options of a target. -/
def effectiveSettings (settings : Settings) (target : Target) : Settings :=
  { settings with
    scan := ((settings.scan.withExtraIgnored target.exclude).withVcsCheck
      (!target.noVcs)).withMaxParallelJobs target.jobs }

/-- The scanner that a target asks for. -/
def scannerFor (system : FileSystem) (status : Path → Option String) (config : Option String)
    (target : Target) (threads : ThreadSupply := {}) : Except CommandError Scanner := do
  let settings ←
    match config with
    | none => pure {}
    | some path =>
      match Settings.load system ⟨path⟩ with
      | .error cause => throw (.settings path cause)
      | .ok settings => pure settings
  match Scanner.new system ⟨target.dir⟩ (effectiveSettings settings target)
      (.git system status) threads with
  | .error cause => throw (.scanner cause)
  | .ok scanner => pure scanner

/-- The result of a scan that nobody interrupts. -/
def resultOf (scanner : Scanner) : Except CommandError ScanResult :=
  match scanner.scan with
  | .error cause => .error (.scan cause)
  | .ok result => .ok result

/-- A report in a format. -/
def render (format : OutputFormat) (result : ScanResult) : String :=
  match format with
  | .summary => result.report.summary result.stats
  | .json => result.report.toJson.pretty

/-- Does what a command says: the text for standard output, and the file system afterwards. -/
def execute (system : FileSystem) (status : Path → Option String) (config : Option String)
    (threads : ThreadSupply) : Command → Except CommandError (String × FileSystem)
  | .scan target format output => do
    let scanner ← scannerFor system status config target threads
    let result ← resultOf scanner
    let content := render format result
    match output with
    | none => return (content ++ "\n", system)
    | some path =>
      match system.write? ⟨path⟩ content.toUTF8 with
      | none => throw (.outputNotWritten path)
      | some system => return ("", system)
  | .edges target => do
    let scanner ← scannerFor system status config target threads
    let result ← resultOf scanner
    return (String.join (result.report.edges.map fun edge => edge.line ++ "\n"), system)

/-- A short guide to the command. -/
def usage : String :=
  "Usage: atlas [OPTIONS] <COMMAND>\n\n"
  ++ "Commands:\n"
  ++ "  scan   Scan a workspace and report on it\n"
  ++ "  edges  Scan a workspace and list the relationships of its projects\n"
  ++ "  help   Print this message or the help of the given subcommand(s)\n"

/-- Runs a command line in a file system. `status` is what git says about a directory. -/
def run (system : FileSystem) (status : Path → Option String) (arguments : List String)
    (environment : Option String) (threads : ThreadSupply := {}) : Outcome :=
  match request arguments environment with
  | .misuse => ⟨2, "", none, system⟩
  | .help => ⟨0, usage, none, system⟩
  | .version program => ⟨0, s!"{program} {programVersion}\n", none, system⟩
  | .run config command =>
    match execute system status config threads command with
    | .error error => ⟨1, "", some error, system⟩
    | .ok (output, system) => ⟨0, output, none, system⟩

end CodeSurvey.CommandLine
