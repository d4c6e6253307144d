/-!
# Integer literals

An integer literal is an optional sign and one or more ASCII digits. `integer64?` keeps those that
fit 64 bits with a sign.
-/

namespace FieldQuery

/-- The number that a run of digits denotes, if it is nonempty and holds digits only. -/
def natural? (cs : List Char) : Option Nat :=
  if cs ≠ [] ∧ cs.all Char.isDigit then
    some (cs.foldl (fun n c => 10 * n + (c.toNat - '0'.toNat)) 0)
  else none

def integer? : List Char → Option Int
  | '-' :: cs => (natural? cs).map fun n => -(n : Int)
  | '+' :: cs => (natural? cs).map Int.ofNat
  | cs => (natural? cs).map Int.ofNat

/-- The integer that the text denotes, if it is between `-2^63` and `2^63 - 1`. -/
def integer64? (text : String) : Option Int :=
  (integer? text.toList).filter fun n => -Int.pow 2 63 ≤ n && n < Int.pow 2 63

end FieldQuery
