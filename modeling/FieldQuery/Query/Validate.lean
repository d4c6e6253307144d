import FieldQuery.Grammar.Replay
import FieldQuery.Query.Clause
import FieldQuery.Query.Value
import FieldQuery.Schema.Registry
import FieldQuery.Token.Line

/-!
# Validation

Validation turns the replayed tokens of a query into clauses and stops at the first problem. A
prefix operator takes the field after it, and a field followed by a comparator takes both the
comparator and the token after that; every other token is a term of its own.

In the mode `fieldsOnly` values are not looked at, and a comparison without a value is passed over.

Tokens of a line always give their text. Tokens from elsewhere need not (`Token.unquoted?`), and
validation stops at one that does not, if it gets there (`Registry.validateAny`).
-/

namespace FieldQuery

inductive ValidationError where
  /-- Nothing in the schema goes by the name. -/
  | unknownField (name : String)
  /-- The field may not be used in queries. -/
  | unsupportedField (name : String)
  | unsupportedOperator (field operator : String)
  | missingValue (field : String)
  | invalidValue (field value expected : String)
  | unterminatedLiteral
deriving DecidableEq, Repr

def ValidationError.message : ValidationError → String
  | .unknownField name => s!"Field '{name}' not recognized"
  | .unsupportedField name => s!"Field '{name}' cannot be used in this query"
  | .unsupportedOperator field operator =>
    s!"Operator '{operator}' is not supported for field '{field}'"
  | .missingValue field => s!"Missing value for field '{field}'"
  | .invalidValue field value expected =>
    s!"Value '{value}' is not a valid {expected} for field '{field}'"
  | .unterminatedLiteral => "Unterminated quoted value"

inductive ValidationMode where
  | full
  | fieldsOnly
deriving DecidableEq, Repr

/-- Why the validation of tokens stops. -/
inductive Halt where
  | invalid (e : ValidationError)
  /-- The quotes of the literal cannot be cut off. -/
  | uncut (t : Token)
deriving DecidableEq, Repr

/-- How the texts of tokens are read, and what becomes of errors. -/
structure Reading (ε : Type) where
  unquote : Token → Except ε String
  invalid : ValidationError → ε

namespace Reading

/-- Every token gives its text, as those of a line do. -/
def ofLine : Reading ValidationError where
  unquote t := .ok t.unquoted
  invalid := id

/-- Any tokens. -/
def any : Reading Halt where
  unquote t := (t.unquoted?.map Except.ok).getD (.error (.uncut t))
  invalid := .invalid

@[simp] theorem mapError_ofLine {α : Type} (x : Except ValidationError α) :
    x.mapError ofLine.invalid = x := by
  cases x <;> rfl

end Reading

/-- The field of this name, if it may be used. -/
def Registry.checkField (r : Registry) (name : String) : Except ValidationError Field :=
  match r.resolve? name with
  | none => .error (.unknownField name)
  | some f => if f.completionEnabled then .ok f else .error (.unsupportedField name)

namespace Field

/-- The comparator of this symbol, if the field's type has it. -/
def comparator? (f : Field) (symbol : String) : Option Comparator :=
  (Comparator.ofSymbol? symbol).filter f.type.supports

def checkComparator (f : Field) (symbol : String) : Except ValidationError Comparator :=
  match f.comparator? symbol with
  | some c => .ok c
  | none => .error (.unsupportedOperator f.name symbol)

/-- Every item of the value is a literal of the field's type. -/
def checkValue (f : Field) (c : Comparator) (value : String) : Except ValidationError Unit :=
  match (c.items value).find? fun item => !f.type.accepts item with
  | some item => .error (.invalidValue f.name item f.type.name)
  | none => .ok ()

end Field

namespace Registry

variable {ε : Type} (rd : Reading ε) (r : Registry) (mode : ValidationMode)

def comparison (name symbol value : Token) : Except ε Clause := do
  let f ← (r.checkField name.text).mapError rd.invalid
  let c ← (f.checkComparator symbol.text).mapError rd.invalid
  let text ← rd.unquote value
  if mode = .full then (f.checkValue c text).mapError rd.invalid
  return .comparison f.name c text

/-- A field and a comparator at the end of the query. -/
def danglingComparison (name symbol : Token) : Except ε Unit := do
  let f ← (r.checkField name.text).mapError rd.invalid
  let _ ← (f.checkComparator symbol.text).mapError rd.invalid
  if mode = .full then .error (rd.invalid (.missingValue f.name))

/-- The query `q` with the clauses of the tokens added, each token with its kind. -/
def addClauses (q : Query) : List (Token × TokenKind) → Except ε Query
  | [] => .ok q
  | (t, .connective) :: rest =>
    addClauses (match Connective.ofWord? t.text with
      | some c => q.addConnective c
      | none => q) rest
  | (t, .prefixOperator) :: (name, .field) :: rest => do
    let f ← (r.checkField name.text).mapError rd.invalid
    addClauses (match PrefixOperator.ofWord? t.text with
      | some op => q.addTerm (.presence op f.name)
      | none => q) rest
  | (name, .field) :: (symbol, .comparator) :: (value, _) :: rest => do
    let clause ← comparison rd r mode name symbol value
    addClauses (q.addTerm clause) rest
  | [(name, .field), (symbol, .comparator)] => do
    danglingComparison rd r mode name symbol
    return q
  | (t, _) :: rest => do
    let text ← rd.unquote t
    addClauses (q.addTerm (.freeText text)) rest

def validateBy (tokens : List Token) : Except ε Query := do
  let q ← addClauses rd r mode {} (tokens.zip (Replay.run tokens).kinds)
  return q.dropTrailingConnective

/-- The query of tokens that come from a line. -/
def validate (tokens : List Token) : Except ValidationError Query :=
  validateBy .ofLine r mode tokens

/-- The query of any tokens. -/
def validateAny (tokens : List Token) : Except Halt Query :=
  validateBy .any r mode tokens

def validateText (input : String) : Except ValidationError Query :=
  match Line.read input with
  | .ok line => r.validate mode line.tokens
  | .error .unterminatedLiteral => .error .unterminatedLiteral

end Registry

end FieldQuery
