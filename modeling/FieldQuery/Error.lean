import FieldQuery.Completion.Known
import FieldQuery.Config.Error
import FieldQuery.Query.Validate
import FieldQuery.Schema.Error

/-!
# Errors

Whatever goes wrong is an error of one of the layers. Its message names the layer before it gives
the message of the layer, and its code is a stable word for programs to read.
-/

namespace FieldQuery

inductive Error where
  | validation (e : ValidationError)
  | schema (e : SchemaError)
  | config (e : ConfigError)
  | provider (e : ProviderError)
  | file (e : FileError)
  | other (message : String)
deriving DecidableEq, Repr

def ValidationError.code : ValidationError → String
  | .unknownField _ => "unknown_field"
  | .unsupportedField _ => "unsupported_field"
  | .unsupportedOperator _ _ => "unsupported_operator"
  | .missingValue _ => "missing_value"
  | .invalidValue _ _ _ => "invalid_value"
  | .unterminatedLiteral => "unterminated_literal"

namespace Error

def message : Error → String
  | validation e => "Query error: " ++ e.message
  | schema e => "Schema error: " ++ e.message
  | config e => "Configuration error: " ++ e.message
  | provider e => "Value provider error: " ++ e.message
  | file e => "I/O error: " ++ e.message
  | other message => message

def code : Error → String
  | validation e => e.code
  | schema _ => "schema"
  | config _ => "config"
  | provider _ => "provider"
  | file _ => "io"
  | other _ => "generic"

/-- The failure to read a file that lies behind the error. -/
def source? : Error → Option FileError
  | file e => some e
  | schema (.unreadable _ e) => some e
  | _ => none

def validation? : Error → Option ValidationError
  | validation e => some e
  | _ => none

end Error

end FieldQuery
