import FieldQuery.Completion.Enumerate

/-!
# Completing a line

The closed tokens of a line say where in the grammar its last word stands, and the candidates for
that word make up the suggestions. A line with a quote anywhere gets none. Completion fails only if
looking up known values fails, and passes the error on; checked completion also fails if the closed
tokens name a field or a comparator that may not be used.
-/

namespace FieldQuery

/-- The fields to complete with, and how many candidates are listed before relations collapse. -/
structure Engine where
  registry : Registry := {}
  threshold : Nat := 10
deriving DecidableEq, Repr

def completable? (input : String) : Option Line :=
  if input.toList.any isQuote then none else (Line.read input).toOption

def Line.context (l : Line) : Context :=
  (Replay.run l.closedTokens).context l.openText

namespace Engine

variable {m : Type → Type} [Monad m] (e : Engine) (lookup : Lookup m)

def completeLine (l : Line) : m (Except Error (List String)) := do
  return (← e.registry.enumerate e.threshold lookup l.context).map (render l.head)

def complete (input : String) : m (Except Error (List String)) :=
  match completable? input with
  | none => return .ok []
  | some l => e.completeLine lookup l

/-- The suggestions for a line whose closed part passes validation. -/
def completeChecked (input : String) : m (Except Error (List String)) :=
  match completable? input with
  | none => return .ok []
  | some l =>
    match e.registry.validate .fieldsOnly l.closedTokens with
    | .error err => return .error (.validation err)
    | .ok _ => e.completeLine lookup l

/-- Where the closed part of a line stands in the grammar; nowhere inside an open quote. -/
def position? (input : String) : Option Position :=
  (Line.read input).toOption.map fun l => (Replay.run l.closedTokens).position

def validate (input : String) : Except Error Query :=
  (e.registry.validateText .full input).mapError .validation

def checkField (name : String) : Except Error Field :=
  (e.registry.checkField name).mapError .validation

end Engine

end FieldQuery
