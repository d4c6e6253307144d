import FieldQuery.Calendar.Pattern
import FieldQuery.Number.Decimal
import FieldQuery.Number.Integer
import FieldQuery.Schema.FieldType
import FieldQuery.Text.Blank
import FieldQuery.Text.Pieces

/-!
# Values

The value of a comparison is one item, or a list of items after a comparator that takes a list.
Every item has to be a literal of the field's type.
-/

namespace FieldQuery

/-- The truth value that a word names, in any mixture of ASCII cases. -/
def boolean? (text : String) : Option Bool :=
  match text.toLower with
  | "true" | "t" | "yes" | "y" | "1" => some true
  | "false" | "f" | "no" | "n" | "0" => some false
  | _ => none

def FieldType.accepts (type : FieldType) (text : String) : Bool :=
  match type with
  | .integer => (integer64? text).isSome
  | .decimal => isDecimalLiteral text
  | .boolean => (boolean? text).isSome
  | .datetime => (moment? text).isSome
  | .string | .set => true

/-- The items that a value stands for: the trimmed pieces between commas if the comparator takes a
list, and otherwise the value as it is. -/
def Comparator.items (c : Comparator) (value : String) : List String :=
  if c.takesList then (splitAtChar ',' value).map trim else [value]

end FieldQuery
