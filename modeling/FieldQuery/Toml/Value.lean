/-!
# TOML values

A document is a table. The entries of a table have distinct keys, and their order has no meaning.
Decimals and dates are kept as they are written. So are numbers that have no value here: these do no
harm as long as nobody asks for them.
-/

namespace FieldQuery

inductive Toml where
  | string (s : String)
  | integer (n : Int)
  | decimal (literal : String)
  /-- A number that is too large, or that has no digits. -/
  | outOfRange (literal : String)
  | boolean (b : Bool)
  | moment (literal : String)
  | array (items : List Toml)
  | table (entries : List (String × Toml))

namespace Toml

def string? : Toml → Option String
  | string s => some s
  | _ => none

def boolean? : Toml → Option Bool
  | boolean b => some b
  | _ => none

def items? : Toml → Option (List Toml)
  | array items => some items
  | _ => none

def strings? (t : Toml) : Option (List String) :=
  t.items?.bind fun items => items.mapM string?

/-- A whole number that fits 64 bits without a sign. -/
def natural? : Toml → Option Nat
  | integer n => if 0 ≤ n ∧ n < Int.pow 2 64 then some n.toNat else none
  | _ => none

mutual

/-- No number in the value is out of range. -/
def isInRange : Toml → Bool
  | outOfRange _ => false
  | array items => areInRange items
  | table entries => entriesAreInRange entries
  | _ => true

def areInRange : List Toml → Bool
  | [] => true
  | t :: ts => isInRange t && areInRange ts

def entriesAreInRange : List (String × Toml) → Bool
  | [] => true
  | (_, t) :: es => isInRange t && entriesAreInRange es

end

/-- The name of a choice: a string, or the only key of a table, with nothing under it. -/
def choice? : Toml → Option String
  | string s => some s
  | table [(key, array [])] => some key
  | table [(key, table [])] => some key
  | _ => none

end Toml

end FieldQuery
