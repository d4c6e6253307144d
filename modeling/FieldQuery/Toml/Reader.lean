import FieldQuery.Toml.Error

/-!
# Reading TOML text

A reader takes a value off the front of a text. If it cannot, it says what it expected and where: at
the start of the text that is left then.
-/

namespace FieldQuery.Toml

structure Fault where
  expected : String
  rest : List Char
deriving DecidableEq, Repr

abbrev Reader (α : Type) := List Char → Except Fault (α × List Char)

def expected {α : Type} (what : String) (rest : List Char) : Except Fault α :=
  .error { expected := what, rest }

/-- The fault in a document, on the line where the text that is left starts. -/
def Fault.inDocument (f : Fault) (document : List Char) : TomlError :=
  let before := document.take (document.length - f.rest.length)
  .unexpected (before.count '\n' + 1) f.expected

def isSpace (c : Char) : Bool :=
  c == ' ' || c == '\t'

/-- A character that may not be written as it is. -/
def isControl (c : Char) : Bool :=
  (c.toNat < 0x20 && c != '\t') || c.toNat = 0x7F

def skipSpaces (cs : List Char) : List Char :=
  cs.dropWhile isSpace

def after (c : Char) : List Char → Except Fault (List Char)
  | [] => expected (toString c) []
  | d :: cs => if c = d then .ok cs else expected (toString c) (d :: cs)

def afterBreak? : List Char → Option (List Char)
  | '\n' :: cs => some cs
  | '\r' :: '\n' :: cs => some cs
  | _ => none

/-- The text from the end of the comment on. -/
def comment : List Char → Except Fault (List Char)
  | [] => .ok []
  | '\n' :: cs => .ok ('\n' :: cs)
  | '\r' :: '\n' :: cs => .ok ('\n' :: cs)
  | c :: cs => if isControl c then expected "a comment" (c :: cs) else comment cs

/-- The text after the end of the line, before which there may be a comment. -/
def lineEnd (cs : List Char) : Except Fault (List Char) := do
  let cs ← match skipSpaces cs with
    | '#' :: cs => comment cs
    | cs => .ok cs
  match afterBreak? cs, cs with
  | some rest, _ => .ok rest
  | none, [] => .ok []
  | none, cs => expected "the end of the line" cs

/-- The text after spaces, line breaks and comments. -/
def gap (inComment : Bool) : List Char → Except Fault (List Char)
  | [] => .ok []
  | '\n' :: cs => gap false cs
  | '\r' :: '\n' :: cs => gap false cs
  | c :: cs =>
    if inComment then if isControl c then expected "a comment" (c :: cs) else gap true cs
    else if c == '#' then gap true cs
    else if isSpace c then gap false cs
    else .ok (c :: cs)

end FieldQuery.Toml
