import FieldQuery.Schema.Comparator

/-!
# Field types

The type of a field says which comparators may follow it, in the order in which they are offered,
and which values they take.
-/

namespace FieldQuery

inductive FieldType where
  | string
  | integer
  | decimal
  | datetime
  | boolean
  | set
deriving DecidableEq, Repr

namespace FieldType

def comparators : FieldType → List Comparator
  | string => [.eq, .ne, .like, .notLike, .among, .notAmong]
  | integer | decimal => [.eq, .ne, .lt, .le, .gt, .ge, .among, .notAmong]
  | datetime => [.eq, .lt, .gt]
  | boolean | set => [.eq, .ne]

def supports (t : FieldType) (c : Comparator) : Bool :=
  c ∈ t.comparators

def name : FieldType → String
  | string => "string"
  | integer => "integer"
  | decimal => "decimal"
  | datetime => "datetime"
  | boolean => "boolean"
  | set => "set"

def isNumeric : FieldType → Bool
  | integer | decimal => true
  | _ => false

/-- The type that a word names, in any mixture of ASCII cases. -/
def ofName? (text : String) : Option FieldType :=
  match text.toLower with
  | "string" | "text" => some string
  | "integer" | "int" => some integer
  | "decimal" | "float" | "numeric" => some decimal
  | "datetime" | "date" | "time" | "temporal" => some datetime
  | "boolean" | "bool" => some boolean
  | "set" => some set
  | _ => none

end FieldType

end FieldQuery
