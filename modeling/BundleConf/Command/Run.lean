import BundleConf.App.Contract
import BundleConf.App.Json
import BundleConf.Command.Arguments
import BundleConf.Parse.Run
import BundleConf.Report.Render
import BundleConf.Settings.Basic

/-!
# Commands

What each command prints, and the status that it ends with: zero if all went well, one if something had to be reported,
two if the command line makes no sense.  Settings are looked up first, whatever the command; what goes wrong is
reported on the error output.  Watching a directory has no end of its own, so its outcome says what to watch.
-/

namespace BundleConf

/-- What a command prints, and how it goes on. -/
structure Printed where
  output : String := ""
  errors : String := ""
  /-- The status with which the command ends, or none if it goes on watching. -/
  status : Option Nat := some 0
  deriving DecidableEq, Repr

namespace Printed

/-- The report of a diagnostic, after which the command has failed. -/
def report (d : Diagnostic) (sources : SourceTable) : Printed :=
  { errors := Report.render d sources, status := some 1 }

def rows (texts : List String) : Printed :=
  { output := String.join (texts.map (· ++ "\n")) }

/-- One after the other; the status is that of the second. -/
def append (p q : Printed) : Printed :=
  ⟨p.output ++ q.output, p.errors ++ q.errors, q.status⟩

instance : Append Printed := ⟨append⟩

/-- What is printed for a command line that makes no sense. -/
def usage : Printed :=
  { errors := "usage: appconf [--manifest PATH] [--root DIR] [-v] COMMAND\n" ++
      "commands: parse [ENTRY] [--json], tokens FILE, check [ENTRY], watch [ENTRY] [--no-clear]\n",
    status := some 2 }

def version : Printed :=
  rows ["appconf 0.1.0"]

end Printed

/-- A breach of the contract, as a user is told of it. -/
def Violation.diagnostic (v : Violation) : Diagnostic :=
  .reference v.message

/-- What is printed after a parse: the report of its failure, or what `print` makes of the application. -/
def Parsed.printed (result : Parsed) (print : App → Session → Printed) : Printed :=
  match result with
  | .ok (app, session) => print app session
  | .error failure => .report failure.error.diagnostic failure.session.sources

/-- A row of a list of tokens: where the token stands, its kind and its text. -/
def tokenRow (position : Position) (t : Token) : String :=
  toString position.line ++ ":" ++ toString position.column ++ "\t" ++ t.kind.name ++ "\t" ++ t.text

/-- A list of the tokens of a source. -/
def tokenRows (source : Source) (ts : List (Located Token)) : List String :=
  ts.map fun t => tokenRow (source.position t.span.start) t.value

namespace Settings

/-- Parses the configuration that the settings speak of. -/
def parse (s : Settings) : Reading Parsed :=
  (Session.new s.root).parseFile s.entry

/-- The settings that common options and an entry lead to. -/
def ofOptions (options : CommonOptions) (entry : Option Path) : Reading (Except SettingsError Settings) := do
  let settings ← match options.manifest with
    | some path => load path
    | none => discover ⟨"."⟩
  return settings.map fun s => s.override options.root entry

end Settings

namespace Command

def entryOption : Command → Option Path
  | parse entry _ => entry
  | tokens _ => none
  | check entry => entry
  | watch entry _ => entry

def printTokens (file : Path) : Reading Printed := do
  match ← Reading.lookup file with
  | .error cause => return .report (.unreadable file cause.message) .empty
  | .ok text =>
    let source : Source := ⟨file, text⟩
    match (TokenStream.ofSource source 0).remaining with
    | .error stray => return .report (ParseError.stray stray).diagnostic (SourceTable.empty.add source)
    | .ok ts => return .rows (tokenRows source ts)

/-- Whether the configuration parses and keeps the contract. -/
def printCheck (settings : Settings) : Reading Printed := do
  return (← settings.parse).printed fun app session =>
    match app.violation? with
    | some v => .report v.diagnostic session.sources
    | none => { errors := settings.entryPath.text ++ ": ok\n" }

/-- The line under each parse of a watched configuration. -/
def rule : Printed :=
  .rows ["", String.ofList (List.replicate 60 '='), ""]

/-- What a parse of a watched configuration prints. -/
def printRound (settings : Settings) : Reading Printed := do
  return (← settings.parse).printed (fun app _ => .rows app.summary) ++ rule

/-- What is printed when watching starts; a root that there is goes on being watched. -/
def printWatch (settings : Settings) : Reading Printed := do
  let start := Printed.rows ["Watching " ++ settings.root.text ++ " for changes..."] ++ (← printRound settings)
  let missing (cause : ReadError) : Printed :=
    .report (.watch ("failed to watch " ++ settings.root.text ++ ": " ++ cause.message)) .empty
  match ← Reading.lookup settings.root with
  | .error .notFound => return start ++ missing .notFound
  | .error .notDirectory => return start ++ missing .notDirectory
  | .error (.refused reason) => return start ++ missing (.refused reason)
  | _ => return { start with status := none }

/-- What a command prints with the given settings. -/
def printed (command : Command) (settings : Settings) : Reading Printed :=
  match command with
  | parse _ json => do
    return (← settings.parse).printed fun app _ => .rows (if json then app.json else app.summary)
  | tokens file => printTokens file
  | check _ => printCheck settings
  | watch _ _ => printWatch settings

def run (command : Command) (options : CommonOptions) : Reading Printed := do
  match ← Settings.ofOptions options command.entryOption with
  | .error e => return .report e.diagnostic .empty
  | .ok settings => command.printed settings

end Command

/-- What a command line prints. -/
def Printed.ofArguments (arguments : List String) : Reading Printed :=
  match Request.ofArguments? arguments with
  | none => pure .usage
  | some .version => pure .version
  | some (.run command options) => command.run options

end BundleConf
