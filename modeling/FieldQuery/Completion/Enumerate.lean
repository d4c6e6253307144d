import FieldQuery.Completion.Candidate
import FieldQuery.Completion.Lookup
import FieldQuery.Grammar.Context
import FieldQuery.Grammar.Keyword
import FieldQuery.Schema.Registry
import FieldQuery.Text.Blank

/-!
# Enumerating candidates

The candidates of a context come in the order of the grammar: fields as they are declared and then
prefix operators, comparators as the type lists them, known values in ascending order, connectives.
All of them start with what has been typed.

If there are more fields and operators than the threshold allows, every relation all of whose
members are listed is collapsed into one candidate that ends in a dot, in the place of its first
member. Typing the dot expands it again.
-/

namespace FieldQuery

/-- A name of the field is offered: it starts with what has been typed, and at the start of a
clause the name of an explicit field has been typed in full. -/
def Field.offers (f : Field) (typed : String) (scope : Scope) (name : String) : Bool :=
  name.startsWith typed && (!f.explicitOnly || scope = .afterPrefix || name = typed)

/-- The field may be listed without its name being typed in full. -/
def Field.listable (f : Field) (scope : Scope) : Bool :=
  f.completionEnabled && (scope = .afterPrefix || !f.explicitOnly)

def Field.candidates (f : Field) (typed : String) (scope : Scope) : List Candidate :=
  if f.completionEnabled then
    (f.advertisedNames.filter (f.offers typed scope)).map fun name => .name name f.name
  else []

def wordCandidates (typed : String) (words : List String) : List Candidate :=
  (words.filter fun w => w.startsWith typed).map fun w => { text := w }

/-- The list with `c` for the first candidate that names one of the fields, and without the others
that do. -/
def replaceNames (fields : List String) (c : Candidate) : List Candidate → List Candidate
  | [] => []
  | d :: ds =>
    if d.names fields then c :: ds.filter fun e => !e.names fields
    else d :: replaceNames fields c ds

/-- The members of a relation that are listed without being typed in full. -/
def RelationGroup.listable (g : RelationGroup) (scope : Scope) : List String :=
  (g.members.filter fun f => f.listable scope).map (·.name)

/-- Collapses a relation, unless its dot has been typed or one of its members is not listed. -/
def collapse (typed : String) (scope : Scope) (cs : List Candidate) (g : RelationGroup) :
    List Candidate :=
  let fields := g.listable scope
  if typed.startsWith (g.relation ++ ".") || fields.isEmpty
      || !fields.all fun name => cs.any fun c => c.field = some name then
    cs
  else replaceNames fields (.group g.relation) cs

/-- A known value as it is typed in a query. -/
def valueCandidate (value : String) : Candidate where
  text := if hasBlank value then "\"" ++ value ++ "\"" else value

namespace Registry

variable (r : Registry)

/-- Fields and prefix operators before any relation is collapsed. -/
def listing (typed : String) (scope : Scope) : List Candidate :=
  r.fields.flatMap (fun f => f.candidates typed scope) ++
    (if scope = .clause then wordCandidates typed (PrefixOperator.all.map (·.keyword)) else [])

def fieldCandidates (threshold : Nat) (typed : String) (scope : Scope) : List Candidate :=
  let cs := r.listing typed scope
  if cs.length ≤ threshold then cs else r.groups.foldl (collapse typed scope) cs

/-- The field of this name, if completion may show it. -/
def enabled? (name : String) : Option Field :=
  (r.resolve? name).filter (·.completionEnabled)

def comparatorCandidates (field typed : String) : List Candidate :=
  match r.enabled? field with
  | some f => wordCandidates typed (f.type.comparators.map (·.symbol))
  | none => []

/-- The field whose known values a context asks for: one that has its values completed, after a
comparator of its type. -/
def valueField? : Context → Option Field
  | .value field comparator _ =>
    (r.enabled? field).filter fun f =>
      f.valueCompletion && (Comparator.ofSymbol? comparator).any f.type.supports
  | _ => none

/-- The candidates of a context, where `known` are the values that it asks for. -/
def candidates (threshold : Nat) (known : List String) : Context → List Candidate
  | .field typed scope => r.fieldCandidates threshold typed scope
  | .comparator field typed => r.comparatorCandidates field typed
  | .value _ _ typed => (known.filter fun v => v.startsWith typed).map valueCandidate
  | .connective typed => wordCandidates typed (Connective.all.map (·.keyword))
  | .nothing => []

/-- The candidates of a context. Known values are looked up only if the context asks for them. -/
def enumerate {m : Type → Type} [Monad m] (threshold : Nat) (lookup : Lookup m) (c : Context) :
    m (Except Error (List Candidate)) :=
  match r.valueField? c with
  | some f => do return (← lookup f).map fun known => r.candidates threshold known c
  | none => return .ok (r.candidates threshold [] c)

end Registry

end FieldQuery
