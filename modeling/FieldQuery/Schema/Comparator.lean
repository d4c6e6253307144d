/-!
# Comparators

A comparator stands between a field and a value. `^` and `!^` compare with a list, whose items are
separated by commas.
-/

namespace FieldQuery

inductive Comparator where
  | eq
  | ne
  | lt
  | le
  | gt
  | ge
  | like
  | notLike
  | among
  | notAmong
deriving DecidableEq, Repr

namespace Comparator

def all : List Comparator :=
  [eq, ne, lt, le, gt, ge, like, notLike, among, notAmong]

def symbol : Comparator → String
  | eq => "="
  | ne => "!="
  | lt => "<"
  | le => "<="
  | gt => ">"
  | ge => ">="
  | like => "~"
  | notLike => "!~"
  | among => "^"
  | notAmong => "!^"

def ofSymbol? (text : String) : Option Comparator :=
  all.find? fun c => c.symbol = text

def takesList : Comparator → Bool
  | among | notAmong => true
  | _ => false

end Comparator

end FieldQuery
