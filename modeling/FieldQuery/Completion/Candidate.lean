/-!
# Candidates

A candidate is a word that may come next. A suggestion is the whole line with the candidate in the
place of the word being typed: what stands before that word is kept as it is, one space follows,
and a terminal candidate gets a space after it too.
-/

namespace FieldQuery

structure Candidate where
  text : String
  /-- The word is complete. -/
  terminal : Bool := true
  /-- The canonical name of the field that the candidate names. -/
  field : Option String := none
deriving DecidableEq, Repr

namespace Candidate

def name (text field : String) : Candidate where
  text := text
  field := some field

/-- The start of the dotted paths of one relation. -/
def group (relation : String) : Candidate where
  text := relation ++ "."
  terminal := false

def names (c : Candidate) (fields : List String) : Bool :=
  c.field.any (· ∈ fields)

def suggestion (head : String) (c : Candidate) : String :=
  head ++ " " ++ c.text ++ (if c.terminal then " " else "")

end Candidate

/-- The suggestions for the candidates, each once. -/
def render (head : String) (cs : List Candidate) : List String :=
  (cs.map (Candidate.suggestion head)).eraseDups

end FieldQuery
