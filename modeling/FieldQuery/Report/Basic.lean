import FieldQuery.Report.Format
import FieldQuery.Report.Plain
import FieldQuery.Report.Structured

/-!
# Reports

Results are reported as plain text, with or without colour, or as JSON, which has no colour.
-/

namespace FieldQuery

structure Reporter where
  format : OutputFormat := .plain
  color : Bool := true
deriving DecidableEq, Repr

namespace Reporter

variable (r : Reporter)

def suggestions (ss : List String) : String :=
  match r.format with
  | .plain => Plain.suggestions ss
  | .json => (Json.strings ss).pretty

def query (q : Query) : String :=
  match r.format with
  | .plain => Plain.query r.color q
  | .json => q.toJson.pretty

def fields (registry : Registry) : String :=
  match r.format with
  | .plain => Plain.fields r.color registry
  | .json => registry.toJson.pretty

def error (e : Error) : String :=
  match r.format with
  | .plain => paintFailure r.color e.message
  | .json => e.toJson.pretty

end Reporter

end FieldQuery
