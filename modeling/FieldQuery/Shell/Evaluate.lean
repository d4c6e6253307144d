import FieldQuery.Shell.Input
import FieldQuery.Shell.Session
import FieldQuery.Text.Layout

/-!
# Evaluating a line

A query is validated and printed, and a command carried out. Whatever fails is reported in the
format of the session.
-/

namespace FieldQuery

inductive Evaluation where
  | nothing
  | print (text : String)
  | fail (text : String)
  | quit
deriving DecidableEq, Repr

def helpText : String :=
  lines [
    "Type a query and press Enter to check it against the schema.",
    "Press Tab to complete the token under the cursor.",
    "",
    "  field = value            comparison (=, !=, <, <=, >, >=, ~, !~, ^, !^)",
    "  has field / not field    presence (also null? and set?)",
    "  a and b / a or b         connectives (& && | || also accepted)",
    "  'quoted value'           literal containing spaces",
    "",
    "Commands:",
    "  :help            show this help",
    "  :fields          list the fields of the current schema",
    "  :reload          re-read the schema file",
    "  :quit, exit      leave the shell"]

namespace Session

variable (s : Session)

def runCommand (fs : Files) : Command → Except Error (Evaluation × Session)
  | .quit => .ok (.quit, s)
  | .help => .ok (.print helpText, s)
  | .fields => .ok (.print (s.reporter.fields s.registry), s)
  | .reload => do
    let s ← s.reload fs
    let count := s.registry.fields.length
    return (.print s!"Reloaded schema '{s.registry.name}' ({count} fields)", s)

def runQuery (text : String) : Except Error Evaluation := do
  let q ← s.engine.validate text
  return if q.isEmpty then .nothing else .print (s.reporter.query q)

def runInput (fs : Files) : Input → Except Error (Evaluation × Session)
  | .empty => .ok (.nothing, s)
  | .command c => s.runCommand fs c
  | .query text => do return (← s.runQuery text, s)

/-- What comes of a line, and the session after it. -/
def evaluate (fs : Files) (line : String) : Evaluation × Session :=
  match Input.read line >>= s.runInput fs with
  | .ok result => result
  | .error e => (.fail (s.reporter.error e), s)

end Session

end FieldQuery
