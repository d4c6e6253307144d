import FieldQuery.Completion.Cache
import FieldQuery.Completion.Engine
import FieldQuery.Config.Basic
import FieldQuery.Report.Basic
import FieldQuery.Schema.Load

/-!
# Sessions

A session holds the schema in use, what is known of its values, and how results are reported. Known
values are looked up through a cache. Reloading the schema replaces the fields and the known values
and empties the cache, or else it fails and changes nothing. The clock counts nanoseconds.
-/

namespace FieldQuery

structure Session where
  engine : Engine := {}
  known : KnownValues := []
  cache : ValueCache := {}
  /-- Nanoseconds for which known values stay in the cache. -/
  ttl : Nat := 0
  /-- The document that the schema is reloaded from. -/
  schemaPath : Option String := none
  reporter : Reporter := {}
deriving DecidableEq, Repr

namespace Session

def nanoseconds (seconds : Nat) : Nat :=
  seconds * Nat.pow 10 9

/-- The session of a schema that was loaded from the path, or of no schema. -/
def start (c : Config) (loaded : Option (String × LoadedSchema)) : Session where
  engine := {
    registry := (loaded.map fun l => l.2.registry).getD {}
    threshold := c.groupThreshold }
  known := (loaded.map fun l => l.2.known).getD []
  ttl := nanoseconds c.valueCacheTtl
  schemaPath := loaded.map (·.1)
  reporter := { format := c.format, color := c.colorOutput }

/-- The session of the schema that the settings name. -/
def openWith (fs : Files) (c : Config) : Except Error Session :=
  match c.schemaPath with
  | none => .ok (start c none)
  | some path => do
    let loaded ← (fs.loadSchema path).mapError .schema
    return start c (some (path, loaded))

variable (s : Session)

def registry : Registry := s.engine.registry

/-- A result that looks values up at the time `now`, and the session after it. -/
def lookingUp {α : Type} (now : Nat) (ask : Engine → Lookup (StateT ValueCache Id) →
    StateT ValueCache Id α) : α × Session :=
  let fetch := ValueCache.fetch (KnownValues.lookupIn (m := Id) s.known) s.ttl now
  let (result, cache) := ask s.engine fetch s.cache
  (result, { s with cache })

def complete (now : Nat) (line : String) : Except Error (List String) × Session :=
  s.lookingUp now fun e lookup => e.complete lookup line

/-- The suggestions for a line whose closed part passes validation. -/
def completeChecked (now : Nat) (line : String) : Except Error (List String) × Session :=
  s.lookingUp now fun e lookup => e.completeChecked lookup line

def reload (fs : Files) : Except Error Session :=
  match s.schemaPath with
  | none => .error (.config (.missingField "schema.path"))
  | some path => do
    let loaded ← (fs.loadSchema path).mapError .schema
    return { s with
      engine := { s.engine with registry := loaded.registry }
      known := loaded.known
      cache := {} }

/-- The session with other fields. What is known of values stays. -/
def publish (r : Registry) : Session :=
  { s with engine := { s.engine with registry := r } }

def setFormat (format : OutputFormat) : Session :=
  { s with reporter := { s.reporter with format } }

def setColor (color : Bool) : Session :=
  { s with reporter := { s.reporter with color } }

end Session

end FieldQuery
