import FieldQuery.Schema.Registry

/-!
# Prompts
-/

namespace FieldQuery

def prompt (r : Registry) : String :=
  if r.name.isEmpty then "(no schema)> " else r.name ++ "> "

/-- The prompt of further lines while a quote is open. -/
def continuationPrompt : String := "... "

/-- The prompt while the history is searched. -/
def searchPrompt (failing : Bool) (term : String) : String :=
  "(" ++ (if failing then "failing " else "") ++ "reverse-search: " ++ term ++ ") "

end FieldQuery
