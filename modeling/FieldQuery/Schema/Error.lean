import FieldQuery.Files.Error

/-!
# Schema errors
-/

namespace FieldQuery

inductive SchemaError where
  | emptyName
  | duplicateName (key : String)
  | unknownType (field typeName : String)
  | unknownOperator (field operator : String)
  | unreadable (path : String) (source : FileError)
  | malformed (path message : String)
  /-- A document extends itself, directly or through others. -/
  | inheritanceCycle (path : String)
deriving DecidableEq, Repr

def SchemaError.message : SchemaError → String
  | .emptyName => "Field name must not be empty"
  | .duplicateName key => s!"Name '{key}' is declared more than once"
  | .unknownType field typeName => s!"Unknown type '{typeName}' for field '{field}'"
  | .unknownOperator field operator => s!"Unknown default operator '{operator}' for field '{field}'"
  | .unreadable path source => s!"Cannot read {path}: {source.message}"
  | .malformed path message => s!"Invalid schema file {path}: {message}"
  | .inheritanceCycle path => s!"Schema {path} extends itself"

end FieldQuery
