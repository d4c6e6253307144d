/-!
# What may be wrong with a TOML document
-/

namespace FieldQuery

inductive TomlError where
  /-- The line, counted from one, does not go on as it should. -/
  | unexpected (line : Nat) (expected : String)
  | duplicateKey (key : String)
  /-- The key is to be extended, but its value is no open table. -/
  | closedKey (key : String)
  | missingKey (key : String)
  | unknownKey (key : String)
  | wrongType (key expected : String)
  /-- A number under the key has no value. -/
  | outOfRange (key : String)
deriving DecidableEq, Repr

def TomlError.message : TomlError → String
  | .unexpected line expected => s!"line {line}: expected {expected}"
  | .duplicateKey key => s!"duplicate key '{key}'"
  | .closedKey key => s!"key '{key}' cannot be extended"
  | .missingKey key => s!"missing key '{key}'"
  | .unknownKey key => s!"unknown key '{key}'"
  | .wrongType key expected => s!"key '{key}' must be {expected}"
  | .outOfRange key => s!"key '{key}' has a number that is out of range"

end FieldQuery
