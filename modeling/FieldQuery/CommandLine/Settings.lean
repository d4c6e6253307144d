import FieldQuery.CommandLine.Arguments
import FieldQuery.Config.Load

/-!
# The settings of a run

Arguments take precedence over the settings file. A file with invalid values gives way to the
defaults, with a warning, and so does a format that does not exist; but invalid values among the
arguments are an error.
-/

namespace FieldQuery

/-- A result with the warnings that were given on the way to it. -/
structure Warned (α : Type) where
  warnings : List String
  result : α

/-- The format that a word names, in any mixture of ASCII cases. -/
def OutputFormat.ofWord? (text : String) : Option OutputFormat :=
  match text.toLower with
  | "plain" | "text" => some .plain
  | "json" => some .json
  | _ => none

namespace Arguments

variable (a : Arguments)

def configPath (home : String) : String :=
  a.configFile.getD (Config.defaultPath home)

def formatWarnings : List String :=
  match a.format with
  | some word =>
    if (OutputFormat.ofWord? word).isSome then []
    else [s!"Warning: Unknown format '{word}', using plain"]
  | none => []

def logLevel (level : LogLevel) : LogLevel :=
  if a.veryVerbose then .trace
  else if a.verbose then .debug
  else if a.quiet then .error
  else level

def override (c : Config) : Config :=
  { c with
    schemaPath := a.schema.or c.schemaPath
    groupThreshold := a.groupThreshold.getD c.groupThreshold
    format := match a.format with
      | some word => (OutputFormat.ofWord? word).getD .plain
      | none => c.format
    colorOutput := c.colorOutput && !a.noColor
    logLevel := a.logLevel c.logLevel }

/-- The settings of the file, or the defaults if its values are invalid. -/
def fileConfig (home : String) (c : Config) : Warned Config :=
  match c.validate with
  | .ok _ => { warnings := [], result := c }
  | .error e => {
      warnings := [
        s!"Warning: Configuration validation failed: {(Error.config e).message}",
        "Using default configuration instead."]
      result := .default home }

def config (fs : Files) (home : String) : Warned (Except Error Config) :=
  match fs.loadConfig home a.configFile with
  | .error e => { warnings := [], result := .error e }
  | .ok c =>
    let file := fileConfig home c
    let c := a.override file.result
    { warnings := file.warnings ++ a.formatWarnings
      result := (c.validate.mapError .config).map fun _ => c }

end Arguments

end FieldQuery
