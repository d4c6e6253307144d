import FieldQuery.Text.Blank
import FieldQuery.Text.Offset
import FieldQuery.Text.Style

/-!
# History and hints

The history keeps the lines that were entered last, up to its capacity. While a line is typed, the
rest of the newest entry that starts with it is hinted at. A hint may be taken as a whole or up to
the end of its next word.
-/

namespace FieldQuery

/-- The newest entry comes first. -/
structure History where
  capacity : Nat
  entries : List String := []
deriving DecidableEq, Repr

namespace History

/-- An entry is kept unless it is empty or equal to the newest one. -/
def add (h : History) (entry : String) : History :=
  if entry.isEmpty || h.entries.head? = some entry then h
  else { h with entries := (entry :: h.entries).take h.capacity }

/-- The newest entry that starts with the text. -/
def newest? (h : History) (start : String) : Option String :=
  h.entries.find? fun e => e.startsWith start

/-- What the newest entry adds to the line, if it adds anything. The cursor has to be at the end of
a line that is not blank. -/
def hint (h : History) (line : String) (cursor : Nat) : String :=
  if cursor ≠ utf8Length line.toList || isBlankText line then ""
  else
    match h.newest? line with
    | some entry => String.ofList (entry.toList.drop line.length)
    | none => ""

end History

/-- The next word of a hint with the blanks before it. -/
def nextHintWord (hint : String) : String :=
  let cs := hint.toList
  String.ofList (cs.takeWhile isBlank ++ (cs.dropWhile isBlank).takeWhile fun c => !isBlank c)

def hintStyle : Style where
  italic := true
  color := some .brightBlack

def showHint (color : Bool) (hint : String) : String :=
  if color && !hint.isEmpty then hintStyle.paint hint else hint

/-- A hinter keeps the hint of the line that it has seen last. -/
structure Hinter where
  hint : String := ""
deriving DecidableEq, Repr

namespace Hinter

/-- What is shown for a line, and the hinter after it. -/
def handle (h : Hinter) (history : History) (line : String) (cursor : Nat) (color : Bool) :
    String × Hinter :=
  let hint := history.hint line cursor
  (showHint color hint, { h with hint })

/-- The hint as it is taken as a whole. -/
def completeHint (h : Hinter) : String := h.hint

/-- The part of the hint that is taken as its next word. -/
def nextHintToken (h : Hinter) : String := nextHintWord h.hint

end Hinter

end FieldQuery
