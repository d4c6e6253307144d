import FieldQuery.Text.Style

/-!
# The colours of a report

Every part of a report has a role, and every role has a style. Without colour all text is plain.
-/

namespace FieldQuery

inductive Role where
  | success
  | failure
  | field
  | operator
  | value
  | detail
deriving DecidableEq, Repr

def Role.style : Role → Style
  | .success | .value => { color := some .green }
  | .failure => { color := some .red }
  | .field => { bold := true, color := some .cyan }
  | .operator => { color := some .yellow }
  | .detail => { dimmed := true }

/-- The text in the style of its role, if there is colour. -/
def Role.paint (role : Role) (color : Bool) (text : String) : String :=
  if color then role.style.paint text else text

def paintFailure (color : Bool) (text : String) : String :=
  Role.failure.paint color ("Error: " ++ text)

end FieldQuery
