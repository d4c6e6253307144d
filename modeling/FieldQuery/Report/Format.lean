/-!
# Output formats
-/

namespace FieldQuery

inductive OutputFormat where
  | plain
  | json
deriving DecidableEq, Repr

namespace OutputFormat

def all : List OutputFormat := [plain, json]

def name : OutputFormat → String
  | plain => "plain"
  | json => "json"

def ofName? (text : String) : Option OutputFormat :=
  all.find? fun f => f.name = text

end OutputFormat

end FieldQuery
