import FieldQuery.Schema.FieldType

/-!
# Fields

A field is one attribute that queries may name, by its name or by an alias. A field that is reached
through a relation goes by its dotted path.
-/

namespace FieldQuery

/-- The way to a field of a related entity. -/
structure Relation where
  name : String
  remoteField : String
deriving DecidableEq, Repr

def Relation.path (r : Relation) : String :=
  r.name ++ "." ++ r.remoteField

structure Field where
  name : String
  type : FieldType
  aliases : List String := []
  /-- The field is offered at the start of a clause only once its name has been typed in full. -/
  explicitOnly : Bool := false
  /-- The field may be completed and used in queries. -/
  completionEnabled : Bool := true
  /-- The known values of the field are offered after a comparator. -/
  valueCompletion : Bool := false
  /-- The comparator that is meant where a query has none. -/
  defaultOperator : Option Comparator := none
  relation : Option Relation := none
deriving DecidableEq, Repr

namespace Field

/-- A field of a related entity, under its dotted path. -/
def related (relation remoteField : String) (type : FieldType) : Field :=
  let r : Relation := { name := relation, remoteField }
  { name := r.path, type, relation := some r }

/-- Everything that the field may be called by. -/
def keys (f : Field) : List String :=
  f.name :: f.aliases

/-- The names that completion shows: the aliases, if there are any. -/
def advertisedNames (f : Field) : List String :=
  if f.aliases.isEmpty then [f.name] else f.aliases

def relationName? (f : Field) : Option String :=
  f.relation.map (·.name)

/-- The name under which the field enters a registry: the dotted path of a related field. -/
def finalName (f : Field) : String :=
  (f.relation.map Relation.path).getD f.name

def renamed (f : Field) : Field :=
  { f with name := f.finalName }

end Field

end FieldQuery
