import FieldQuery.Error
import FieldQuery.Json.Basic
import FieldQuery.Query.Clause
import FieldQuery.Schema.Registry

/-!
# Reports as JSON values

The members of every object are in alphabetical order.
-/

namespace FieldQuery

namespace Clause

def toJson : Clause → Json
  | comparison field comparator value =>
    .object [("comparator", .string comparator.symbol), ("field", .string field),
      ("kind", .string "comparison"), ("value", .string value)]
  | presence operator field =>
    .object [("field", .string field), ("kind", .string "presence"),
      ("operator", .string operator.keyword)]
  | freeText text => .object [("kind", .string "free_text"), ("text", .string text)]
  | logical connective =>
    .object [("connective", .string connective.keyword), ("kind", .string "logical")]

end Clause

def Query.toJson (q : Query) : Json :=
  .object [("clauses", .array (q.clauses.map Clause.toJson)), ("query", .string q.text)]

def Relation.toJson (r : Relation) : Json :=
  .object [("relation_name", .string r.name), ("remote_field_name", .string r.remoteField)]

def Field.toJson (f : Field) : Json :=
  .object [("aliases", Json.strings f.aliases), ("completion_enabled", .bool f.completionEnabled),
    ("default_operator", Json.optional (f.defaultOperator.map Comparator.symbol)),
    ("explicit_only", .bool f.explicitOnly), ("field_type", .string f.type.name),
    ("name", .string f.name), ("relation", (f.relation.map Relation.toJson).getD .null),
    ("value_completion", .bool f.valueCompletion)]

def Registry.toJson (r : Registry) : Json :=
  .object [("fields", .array (r.fields.map Field.toJson)), ("schema", .string r.name)]

def Error.toJson (e : Error) : Json :=
  .object [("error", .string e.code), ("message", .string e.message)]

end FieldQuery
