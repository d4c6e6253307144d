import FieldQuery.CommandLine.Script
import FieldQuery.CommandLine.Settings
import FieldQuery.Shell.Session
import FieldQuery.Text.Layout

/-!
# Running the program

A run prints lines, and it may fail after it has printed some. The failure goes to the error output
after all warnings. Without a subcommand the program prints a banner and goes on as a shell.
-/

namespace FieldQuery

/-- What a run has printed, and how it ends. -/
structure Outcome where
  status : Nat := 0
  output : String := ""
  errors : String := ""
deriving DecidableEq, Repr

/-- What a subcommand prints, and how it fails if it does. -/
structure Printed where
  output : List String := []
  failure : Option Error := none

namespace Printed

def fail (e : Error) : Printed where
  failure := some e

def ofResult : Except Error Printed → Printed
  | .ok p => p
  | .error e => fail e

end Printed

def programVersion : String := "0.1.0"

def usageText : String := "Usage: searchline [OPTIONS] [COMMAND]"

def requireSession (fs : Files) (c : Config) : Except Error Session :=
  if c.schemaPath.isNone then
    .error (.config (.missingField
      "schema.path (pass --schema FILE or set [schema] path)"))
  else Session.openWith fs c

namespace Subcommand

def printComplete (fs : Files) (c : Config) (query : String) (checked : Bool) :
    Except Error Printed := do
  let s ← requireSession fs c
  let suggestions ← (if checked then s.completeChecked 0 query else s.complete 0 query).1
  let text := s.reporter.suggestions suggestions
  return { output := if text.isEmpty then [] else [text] }

/-- Prints the query. A failure is printed too if the format is JSON. -/
def printQuery (fs : Files) (c : Config) (query : String) : Except Error Printed := do
  let s ← requireSession fs c
  match s.engine.validate query with
  | .ok q => return { output := [s.reporter.query q] }
  | .error e =>
    return {
      output := if s.reporter.format = .json then [s.reporter.error e] else []
      failure := some e }

def printFields (fs : Files) (c : Config) : Except Error Printed := do
  let s ← requireSession fs c
  return { output := [s.reporter.fields s.registry] }

def printScript (shell : String) : Except Error Printed :=
  match ShellKind.ofName? shell with
  | some kind => .ok { output := kind.script }
  | none => .error (.config (.other
      s!"Unsupported shell: {shell}. Supported shells: bash, zsh, fish"))

/-- What there is to say about the settings file. -/
def verdict (fs : Files) (home path : String) : String :=
  if !fs.has path then "❌ Configuration file does not exist"
  else
    match fs.loadConfig home (some path) with
    | .error e => "❌ Failed to load configuration: " ++ e.message
    | .ok c =>
      match c.validate with
      | .ok _ => "✅ Configuration is valid"
      | .error e => "❌ Configuration validation failed: " ++ (Error.config e).message

def configLines (fs : Files) (home path : String) (c : Config) (showing validating : Bool) :
    List String :=
  (if validating then ["Validating configuration file: " ++ path, verdict fs home path] else [])
    ++ (if showing || !validating then
      ["# Configuration file: " ++ path, "# Effective configuration:", "", c.text] else [])

/-- What the subcommand prints under the settings `c`, which are kept in the file `path`. -/
def run (fs : Files) (home path : String) (c : Config) : Subcommand → Printed
  | complete query checked => .ofResult (printComplete fs c query checked)
  | validate query => .ofResult (printQuery fs c query)
  | fields => .ofResult (printFields fs c)
  | completion shell => .ofResult (printScript shell)
  | config showing validating => { output := configLines fs home path c showing validating }
  | version => { output := ["searchline version " ++ programVersion, "Rust version: 1.91"] }

end Subcommand

def Session.banner (s : Session) : List String :=
  let schema := match s.schemaPath with
    | some path =>
      s!"Schema: {s.registry.name} ({s.registry.fields.length} fields) from {path}"
    | none => "No schema loaded; start with --schema FILE"
  ["Using searchline: " ++ programVersion, schema, "Type :help for help, Tab to complete."]

/-- How a run begins: what it prints, and the shell that it goes on as. -/
structure Launch where
  outcome : Outcome
  shell : Option (Session × Config) := none

def Printed.outcome (p : Printed) (warnings : List String) : Outcome where
  status := if p.failure.isSome then 1 else 0
  output := endedLines p.output
  errors := endedLines (warnings ++ (p.failure.map fun e => "Error: " ++ e.message).toList)

def Arguments.launchShell (a : Arguments) (fs : Files) (c : Config) (warnings : List String) :
    Launch :=
  match Session.openWith fs c with
  | .error e => { outcome := (Printed.fail e).outcome warnings }
  | .ok s =>
    let printed : Printed := { output := if a.quiet then [] else s.banner }
    { outcome := printed.outcome warnings, shell := some (s, c) }

def Arguments.launch (a : Arguments) (fs : Files) (home : String) : Launch :=
  let settings := a.config fs home
  match settings.result, a.subcommand with
  | .error e, _ => { outcome := (Printed.fail e).outcome settings.warnings }
  | .ok c, some sub =>
    { outcome := (sub.run fs home (a.configPath home) c).outcome settings.warnings }
  | .ok c, none => a.launchShell fs c settings.warnings

def launch (fs : Files) (home : String) (args : List String) : Launch :=
  match Arguments.read args with
  | .ok a => a.launch fs home
  | .error .usage => { outcome := { status := 2, errors := endedLines [usageText] } }
  | .error .help => { outcome := { output := endedLines [usageText] } }
  | .error .version => { outcome := { output := endedLines ["searchline " ++ programVersion] } }

end FieldQuery
