import FieldQuery.Grammar.Keyword
import FieldQuery.Schema.Comparator
import FieldQuery.Text.Blank

/-!
# Clauses and queries

A query is a list of terms with a connective between neighbours. Terms and connectives are added
from left to right: a term that follows a term is joined by `and`, and a connective is kept only
where a term stands before it.
-/

namespace FieldQuery

inductive Clause where
  /-- The field goes by its canonical name. -/
  | comparison (field : String) (comparator : Comparator) (value : String)
  | presence (operator : PrefixOperator) (field : String)
  | freeText (text : String)
  | logical (connective : Connective)
deriving DecidableEq, Repr

/-- The text as it is printed: quoted if it is empty or has a blank. -/
def quoteIfNeeded (text : String) : String :=
  if text.isEmpty || hasBlank text then "\"" ++ text ++ "\"" else text

namespace Clause

def isLogical : Clause → Bool
  | logical _ => true
  | _ => false

def field? : Clause → Option String
  | comparison field _ _ | presence _ field => some field
  | _ => none

def text : Clause → String
  | comparison field comparator value => s!"{field} {comparator.symbol} {quoteIfNeeded value}"
  | presence operator field => s!"{operator.keyword} {field}"
  | freeText text => quoteIfNeeded text
  | logical connective => connective.keyword

end Clause

structure Query where
  clauses : List Clause := []
deriving DecidableEq, Repr

namespace Query

def isEmpty (q : Query) : Bool :=
  q.clauses.isEmpty

/-- The canonical names of the fields that the query refers to. -/
def fields (q : Query) : List String :=
  q.clauses.filterMap Clause.field?

def text (q : Query) : String :=
  " ".intercalate (q.clauses.map Clause.text)

/-- The last clause is a term, so that a term after it needs a connective. -/
def endsInTerm (q : Query) : Bool :=
  q.clauses.getLast?.any (!·.isLogical)

def addTerm (q : Query) (term : Clause) : Query :=
  if q.endsInTerm then { clauses := q.clauses ++ [.logical .and, term] }
  else { clauses := q.clauses ++ [term] }

def addConnective (q : Query) (c : Connective) : Query :=
  if q.endsInTerm then { clauses := q.clauses ++ [.logical c] } else q

def dropTrailingConnective (q : Query) : Query :=
  if q.clauses.getLast?.any Clause.isLogical then { clauses := q.clauses.dropLast } else q

end Query

end FieldQuery
