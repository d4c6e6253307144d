import FieldQuery.Schema.Field

/-!
# Known values

The known values of a field are a set of texts, kept in the order of their characters.
-/

namespace FieldQuery

/-- The set of texts with `v` added, where `vs` is ascending. -/
def insertText (v : String) : List String → List String
  | [] => [v]
  | w :: ws => if v < w then v :: w :: ws else if v = w then w :: ws else w :: insertText v ws

/-- The texts in ascending order, each once. -/
def textSet (vs : List String) : List String :=
  vs.foldr insertText []

/-- Known values by canonical field name. A name occurs once at most. -/
abbrev KnownValues := List (String × List String)

namespace KnownValues

def erase (t : KnownValues) (name : String) : KnownValues :=
  t.filter fun e => e.1 ≠ name

def insert (t : KnownValues) (name : String) (values : List String) : KnownValues :=
  t.erase name ++ [(name, values)]

/-- The values of a name, none if the table does not have it. -/
def get (t : KnownValues) (name : String) : List String :=
  (t.lookup name).getD []

end KnownValues

inductive ProviderError where
  | lookupFailed (field message : String)
deriving DecidableEq, Repr

def ProviderError.message : ProviderError → String
  | .lookupFailed field message => s!"Cannot list values of '{field}': {message}"

end FieldQuery
