/-!
# Terminal styles

A style is painted as a control sequence before the text and a reset after it. The sequence lists
the attributes by number, and then the colour.
-/

namespace FieldQuery

inductive Color where
  | red
  | green
  | yellow
  | blue
  | magenta
  | cyan
  | brightBlack
deriving DecidableEq, Repr

def Color.number : Color → Nat
  | .red => 31
  | .green => 32
  | .yellow => 33
  | .blue => 34
  | .magenta => 35
  | .cyan => 36
  | .brightBlack => 90

structure Style where
  bold : Bool := false
  dimmed : Bool := false
  italic : Bool := false
  color : Option Color := none
deriving DecidableEq, Repr

namespace Style

/-- The numbers of the attributes and the colour. -/
def numbers (s : Style) : List Nat :=
  (if s.bold then [1] else []) ++ (if s.dimmed then [2] else []) ++ (if s.italic then [3] else [])
    ++ (s.color.map Color.number).toList

/-- The control sequence that numbers make up. -/
def sequence (numbers : List Nat) : String :=
  "\x1b[" ++ ";".intercalate (numbers.map toString) ++ "m"

def reset : String := sequence [0]

/-- What is written before the text: nothing for the plain style. -/
def opening (s : Style) : String :=
  if s.numbers.isEmpty then "" else sequence s.numbers

def paint (s : Style) (text : String) : String :=
  if s.numbers.isEmpty then text else s.opening ++ text ++ reset

end Style

end FieldQuery
