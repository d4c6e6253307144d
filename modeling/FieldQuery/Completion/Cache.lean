import FieldQuery.Completion.Lookup

/-!
# A cache in front of a lookup

The cache keeps the values of a field and the time at which they were fetched, and serves them for
as long as they are younger than the time to live. The clock is read before the cache is asked, and
once more after the lookup behind it has answered. A failed lookup is passed on and leaves the cache
as it is.
-/

namespace FieldQuery

structure CacheEntry where
  values : List String
  fetched : Nat
deriving DecidableEq, Repr

/-- Entries by canonical field name. -/
structure ValueCache where
  entries : List (String × CacheEntry) := []
deriving DecidableEq, Repr

namespace ValueCache

def entry? (c : ValueCache) (name : String) : Option CacheEntry :=
  c.entries.lookup name

/-- The values of a name that may still be served at the time `now`. -/
def fresh? (c : ValueCache) (ttl now : Nat) (name : String) : Option (List String) :=
  ((c.entry? name).filter fun e => now - e.fetched < ttl).map (·.values)

def store (c : ValueCache) (name : String) (e : CacheEntry) : ValueCache :=
  { entries := (name, e) :: c.entries.filter fun p => p.1 ≠ name }

variable {m : Type → Type} [Monad m]

/-- The lookup of a field through the cache. -/
def fetchBy (clock : m Nat) (inner : Lookup m) (ttl : Nat) : Lookup (StateT ValueCache m) :=
  fun f c => do
    match c.fresh? ttl (← clock) f.name with
    | some values => return (.ok values, c)
    | none =>
      match ← inner f with
      | .ok values => return (.ok values, c.store f.name { values, fetched := ← clock })
      | .error e => return (.error e, c)

/-- The lookup of a field through the cache while the clock stands at `now`. -/
def fetch (inner : Lookup m) (ttl now : Nat) : Lookup (StateT ValueCache m) :=
  fetchBy (pure now) inner ttl

end ValueCache

end FieldQuery
