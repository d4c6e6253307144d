/-!
# Keywords

A connective joins two clauses and has three spellings. A prefix operator stands before a field
that has no comparator.
-/

namespace FieldQuery

inductive Connective where
  | and
  | or
deriving DecidableEq, Repr

namespace Connective

/-- In the order in which they are offered. -/
def all : List Connective := [and, or]

def keyword : Connective → String
  | and => "and"
  | or => "or"

def ofWord? : String → Option Connective
  | "and" | "&" | "&&" => some and
  | "or" | "|" | "||" => some or
  | _ => none

end Connective

inductive PrefixOperator where
  | has
  | not
  | null
  | set
deriving DecidableEq, Repr

namespace PrefixOperator

/-- In the order in which they are offered. -/
def all : List PrefixOperator := [has, not, null, set]

def keyword : PrefixOperator → String
  | has => "has"
  | not => "not"
  | null => "null?"
  | set => "set?"

def ofWord? (text : String) : Option PrefixOperator :=
  all.find? fun op => op.keyword = text

end PrefixOperator

end FieldQuery
