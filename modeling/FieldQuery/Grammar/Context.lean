/-!
# Completion contexts

A context is what a place in a query boils down to for completion: the kind of word that comes
next and what has been typed of it.
-/

namespace FieldQuery

/-- Which fields a place asks for. -/
inductive Scope where
  /-- A clause starts: prefix operators, and the fields that need not be typed in full. -/
  | clause
  /-- A prefix operator came before: fields only, and all of them. -/
  | afterPrefix
deriving DecidableEq, Repr

inductive Context where
  | field (typed : String) (scope : Scope)
  | comparator (field typed : String)
  | value (field comparator typed : String)
  | connective (typed : String)
  | nothing
deriving DecidableEq, Repr

namespace Context

def typed? : Context → Option String
  | field typed _ | comparator _ typed | value _ _ typed | connective typed => some typed
  | nothing => none

def needsCompletion (c : Context) : Bool :=
  c.typed?.isSome

end Context

end FieldQuery
