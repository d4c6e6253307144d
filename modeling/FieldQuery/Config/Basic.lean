import FieldQuery.Config.Error
import FieldQuery.Files.Path
import FieldQuery.Report.Format

/-!
# Settings

Every setting has a default. The default file of the settings and that of the history are in the
home directory.
-/

namespace FieldQuery

inductive LogLevel where
  | error
  | warn
  | info
  | debug
  | trace
deriving DecidableEq, Repr

namespace LogLevel

def all : List LogLevel := [error, warn, info, debug, trace]

def name : LogLevel → String
  | error => "error"
  | warn => "warn"
  | info => "info"
  | debug => "debug"
  | trace => "trace"

def ofName? (text : String) : Option LogLevel :=
  all.find? fun l => l.name = text

end LogLevel

structure Config where
  schemaPath : Option String := none
  groupThreshold : Nat := 10
  /-- Seconds for which known values are cached. -/
  valueCacheTtl : Nat := 30
  format : OutputFormat := .plain
  colorOutput : Bool := true
  syntaxHighlighting : Bool := true
  historySize : Nat := 1000
  historyFile : String
  persistHistory : Bool := true
  logLevel : LogLevel := .warn
  logTimestamps : Bool := false
deriving DecidableEq, Repr

namespace Config

def default (home : String) : Config where
  historyFile := Path.join home ".searchline_history"

/-- The file that settings are read from if no other is named. -/
def defaultPath (home : String) : String :=
  Path.join (Path.join home ".searchline") "config.toml"

/-- Two settings must not be zero. -/
def validate (c : Config) : Except ConfigError Unit :=
  if c.groupThreshold = 0 then .error (.invalidValue "completion.group_threshold" "0")
  else if c.historySize = 0 then .error (.invalidValue "history.max_size" "0")
  else .ok ()

end Config

end FieldQuery
