import FieldQuery.Query.Clause
import FieldQuery.Report.Palette
import FieldQuery.Schema.Registry
import FieldQuery.Text.Blank
import FieldQuery.Text.Escaped
import FieldQuery.Text.Layout
import FieldQuery.Text.Offset

/-!
# Plain reports

Suggestions are listed one to a line in escaped form, so that the spaces at their ends can be seen.
A query is printed clause by clause. The fields of a registry make a table: the name column is as
wide as the longest name has bytes, and is padded by characters.
-/

namespace FieldQuery

namespace Plain

def suggestions (ss : List String) : String :=
  lines (ss.map escaped)

variable (color : Bool)

def clause : Clause → String
  | .comparison field comparator value =>
    Role.field.paint color field ++ " " ++ Role.operator.paint color comparator.symbol ++ " "
      ++ Role.value.paint color (quoteIfNeeded value)
  | .presence operator field =>
    Role.operator.paint color operator.keyword ++ " " ++ Role.field.paint color field
  | .freeText text => Role.value.paint color (quoteIfNeeded text)
  | .logical connective => Role.operator.paint color connective.keyword

def query (q : Query) : String :=
  " ".intercalate (q.clauses.map (clause color))

/-- The flags of a field that differ from the default. -/
def flags (f : Field) : List String :=
  (if f.explicitOnly then ["[explicit]"] else [])
    ++ (if f.completionEnabled then [] else ["[disabled]"])
    ++ (if f.valueCompletion then ["[values]"] else [])
    ++ (f.defaultOperator.map fun c => "[default " ++ c.symbol ++ "]").toList

def nameWidth (fs : List Field) : Nat :=
  (fs.map fun f => utf8Length f.name.toList).foldl max 0

def fieldRow (width : Nat) (f : Field) : String :=
  let aliases := if f.aliases.isEmpty then "" else "  aliases: " ++ ", ".intercalate f.aliases
  let flags := if (flags f).isEmpty then ""
    else "  " ++ Role.detail.paint color (" ".intercalate (flags f))
  trimEnd ("  " ++ Role.field.paint color (padRight width f.name) ++ "  "
    ++ padRight 8 f.type.name ++ aliases ++ flags)

def fields (r : Registry) : String :=
  let title := Role.success.paint color r.name ++ " (" ++ toString r.fields.length ++ " fields)"
  lines (title :: r.fields.map (fieldRow color (nameWidth r.fields)))

end Plain

end FieldQuery
