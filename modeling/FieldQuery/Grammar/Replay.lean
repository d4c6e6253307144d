import FieldQuery.Grammar.Context
import FieldQuery.Grammar.Keyword
import FieldQuery.Schema.Comparator
import FieldQuery.Token.Basic

/-!
# Replaying a query

Tokens are replayed from left to right through six positions. Every token has a next position and a
kind, so replay refuses nothing: text that no field is called by counts as a field all the same, and
whether it is one is for validation to say.
-/

namespace FieldQuery

inductive TokenKind where
  | field
  | comparator
  | connective
  | prefixOperator
  | value
  | literalValue
deriving DecidableEq, Repr

inductive Position where
  | start
  | afterField
  | afterComparator
  | afterClause
  | afterPrefix
  | afterConnective
deriving DecidableEq, Repr

/-- The position after a token, and the kind of the token. After a comparator any token is its
value. Elsewhere keywords come first, and two fields in a row start two clauses. -/
def Position.next (p : Position) (t : Token) : Position × TokenKind :=
  if p = .afterComparator then
    (.afterClause, if t.literal then .literalValue else .value)
  else if (Connective.ofWord? t.text).isSome then (.afterConnective, .connective)
  else if (PrefixOperator.ofWord? t.text).isSome then (.afterPrefix, .prefixOperator)
  else if t.literal then (.afterClause, .literalValue)
  else if p = .afterField ∧ (Comparator.ofSymbol? t.text).isSome then
    (.afterComparator, .comparator)
  else if p = .afterPrefix then (.afterClause, .field)
  else (.afterField, .field)

/-- Where a query stands after some tokens. -/
structure Replay where
  position : Position := .start
  kinds : List TokenKind := []
  /-- The field that a comparator or a value would belong to. -/
  subject : Option String := none
  /-- The comparator that a value would follow. -/
  comparator : Option String := none
deriving DecidableEq, Repr

namespace Replay

def step (r : Replay) (t : Token) : Replay :=
  let (position, kind) := r.position.next t
  let r' := { r with position, kinds := r.kinds ++ [kind] }
  match kind with
  | .field => { r' with subject := some t.text, comparator := none }
  | .comparator => { r' with comparator := some t.text }
  | .connective | .prefixOperator => { r' with subject := none, comparator := none }
  | .literalValue => if r.position = .afterComparator then r' else { r' with subject := none }
  | .value => r'

def run (ts : List Token) : Replay :=
  ts.foldl step {}

/-- The completion context of the word `typed` after the replayed tokens. -/
def context (r : Replay) (typed : String) : Context :=
  match r.position with
  | .start | .afterConnective => .field typed .clause
  | .afterPrefix => .field typed .afterPrefix
  | .afterField =>
    match r.subject with
    | some field => .comparator field typed
    | none => .nothing
  | .afterComparator =>
    match r.subject, r.comparator with
    | some field, some comparator => .value field comparator typed
    | _, _ => .nothing
  | .afterClause => .connective typed

end Replay

end FieldQuery
