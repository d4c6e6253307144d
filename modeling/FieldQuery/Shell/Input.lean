import FieldQuery.Error
import FieldQuery.Text.Blank
import FieldQuery.Token.Line

/-!
# What a line asks for

A line is blank, a command or a query. Commands start with a colon, and the two words for leaving
may do without it. A line is complete when no quote is open.
-/

namespace FieldQuery

inductive Command where
  | help
  | fields
  | reload
  | quit
deriving DecidableEq, Repr

def Command.ofText? : String → Option Command
  | "exit" | "quit" | ":quit" | ":q" | ":exit" => some .quit
  | ":help" | ":h" | ":?" => some .help
  | ":fields" | ":f" => some .fields
  | ":reload" | ":r" => some .reload
  | _ => none

inductive Input where
  | empty
  | command (c : Command)
  | query (text : String)
deriving DecidableEq, Repr

/-- What the trimmed line asks for. -/
def Input.read (line : String) : Except Error Input :=
  let text := trim line
  if text.isEmpty then .ok .empty
  else
    match Command.ofText? text with
    | some c => .ok (.command c)
    | none =>
      if text.startsWith ":" then
        .error (.other s!"Unknown command '{text}'. Type :help for help")
      else .ok (.query text)

def isCompleteLine (line : String) : Bool :=
  (Line.read line).isOk

end FieldQuery
