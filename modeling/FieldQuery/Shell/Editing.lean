import FieldQuery.Shell.Session
import FieldQuery.Text.Offset

/-!
# Completing at the cursor

The line left of the cursor is completed, and every suggestion takes its place. A cursor inside a
character or past the end counts as one at the end of the line. Without an answer there are no
suggestions.
-/

namespace FieldQuery

/-- A text for the part of the line before the offset `stop`. -/
structure Replacement where
  text : String
  stop : Nat
deriving DecidableEq, Repr

def leftOf (line : String) (cursor : Nat) : String :=
  match cutAt? cursor line.toList with
  | some (left, _) => String.ofList left
  | none => line

def Session.completeAt (s : Session) (now : Nat) (line : String) (cursor : Nat) :
    List Replacement × Session :=
  let left := leftOf line cursor
  let (result, s) := s.complete now left
  let suggestions := result.toOption.getD []
  (suggestions.map fun text => { text, stop := utf8Length left.toList }, s)

end FieldQuery
