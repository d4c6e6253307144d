/-!
# Configuration errors
-/

namespace FieldQuery

inductive ConfigError where
  | fileNotFound (path : String)
  /-- The text is no configuration. -/
  | invalidFormat (message : String)
  | missingField (field : String)
  | invalidValue (field value : String)
  | other (message : String)
deriving DecidableEq, Repr

def ConfigError.message : ConfigError → String
  | .fileNotFound path => s!"Config file not found: {path}"
  | .invalidFormat message => s!"Invalid config format: {message}"
  | .missingField field => s!"Missing config field: {field}"
  | .invalidValue field value => s!"Invalid value '{value}' for config field '{field}'"
  | .other message => message

end FieldQuery
