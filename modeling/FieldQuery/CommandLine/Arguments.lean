import FieldQuery.CommandLine.Options

/-!
# The arguments of the program

Options come before the subcommand, and a subcommand has options of its own.
-/

namespace FieldQuery

inductive Subcommand where
  | complete (query : String) (checked : Bool)
  | validate (query : String)
  | fields
  | completion (shell : String)
  | config (showing validating : Bool)
  | version
deriving DecidableEq, Repr

structure Arguments where
  schema : Option String := none
  configFile : Option String := none
  format : Option String := none
  groupThreshold : Option Nat := none
  noColor : Bool := false
  quiet : Bool := false
  verbose : Bool := false
  veryVerbose : Bool := false
  /-- Without a subcommand the program is a shell. -/
  subcommand : Option Subcommand := none
deriving DecidableEq, Repr

namespace Arguments

def helpOption : OptionSpec where
  long := "help"
  letter := some 'h'
  kind := .help

def subcommands : List (String × CommandSpec) :=
  [("complete", {
      options := [{ long := "checked" }, helpOption]
      operands := .oneOfAnyForm }),
    ("validate", { options := [helpOption], operands := .oneOfAnyForm }),
    ("fields", { options := [helpOption] }),
    ("completion", { options := [helpOption], operands := .one }),
    ("config", { options := [{ long := "show" }, { long := "validate" }, helpOption] }),
    ("version", { options := [helpOption] })]

def program : CommandSpec where
  options := [
    { long := "schema", letter := some 's', kind := .value .nonempty },
    { long := "config", letter := some 'c', kind := .value .nonempty },
    { long := "format", kind := .value .text },
    { long := "group-threshold", kind := .value .count },
    { long := "no-color" },
    { long := "quiet", letter := some 'q' },
    { long := "verbose", letter := some 'v' },
    { long := "vv" },
    helpOption,
    { long := "version", letter := some 'V', kind := .version }]
  subcommands := subcommands.map (·.1) ++ ["help"]

/-- Help may be asked for one subcommand at most. -/
def helpFor (args : List String) : Stop :=
  if args.length ≤ 1 && args.all (· ∈ program.subcommands) then .help else .usage

def readSubcommand (name : String) (args : List String) : Except Stop Subcommand := do
  let some spec := subcommands.lookup name | .error (helpFor args)
  let g ← spec.read {} args
  match name, g.operand with
  | "complete", some query => return .complete query (g.has "checked")
  | "validate", some query => return .validate query
  | "completion", some shell => return .completion shell
  | "fields", _ => return .fields
  | "config", _ => return .config (g.has "show") (g.has "validate")
  | "version", _ => return .version
  | _, _ => .error .usage

def read (args : List String) : Except Stop Arguments := do
  let g ← program.read {} args
  let subcommand ← g.subcommand.mapM fun c => readSubcommand c.1 c.2
  return {
    schema := g.options.lookup "schema"
    configFile := g.options.lookup "config"
    format := g.options.lookup "format"
    groupThreshold := (g.options.lookup "group-threshold").bind count?
    noColor := g.has "no-color"
    quiet := g.has "quiet"
    verbose := g.has "verbose"
    veryVerbose := g.has "vv"
    subcommand }

end Arguments

end FieldQuery
