import FieldQuery.Error

/-!
# Looking up known values

A lookup answers with the known values of a field, or fails with any error that it likes. Lookups
may have effects, such as asking a cache, so they live in a monad.
-/

namespace FieldQuery

abbrev KnownResult := Except Error (List String)

/-- A way to look up the known values of a field. -/
abbrev Lookup (m : Type → Type) := Field → m KnownResult

variable {m : Type → Type} [Monad m]

def Lookup.none : Lookup m :=
  fun _ => pure (.ok [])

def KnownValues.lookupIn (t : KnownValues) : Lookup m :=
  fun f => pure (.ok (t.get f.name))

end FieldQuery
