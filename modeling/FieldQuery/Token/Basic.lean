import FieldQuery.Text.Offset

/-!
# Tokens

A token is a run of characters between unquoted blanks. Its text keeps the quotes, its span counts
bytes. What a token means depends on where it stands, so nothing is said about that here.

The quotes of a literal are cut off as its first and its last byte. In the tokens of a line they are
quotes, and can be; a token from elsewhere may claim to be a literal and start with a character of
several bytes, which cannot be cut (`Token.unquoted?`).
-/

namespace FieldQuery

/-- A quote protects the blanks up to the next quote of the same kind. -/
def isQuote (c : Char) : Bool :=
  c == '"' || c == '\''

structure Token where
  text : String
  /-- The offset of the first byte. -/
  start : Nat := 0
  /-- The offset just past the last byte. -/
  stop : Nat := 0
  /-- The text starts with a quote. -/
  literal : Bool := false
  /-- A blank follows. -/
  closed : Bool := true
deriving DecidableEq, Repr

/-- The text without its first and last character, if these are the same. -/
def stripEnds : List Char → List Char
  | [] => []
  | c :: cs => if cs.getLast? = some c then cs.dropLast else c :: cs

namespace Token

/-- The text, without the surrounding quotes of a literal. -/
def unquoted (t : Token) : String :=
  if t.literal then String.ofList (stripEnds t.text.toList) else t.text

/-- The text without the surrounding quotes of a literal, if they can be cut off. -/
def unquoted? (t : Token) : Option String :=
  let cs := t.text.toList
  if t.literal && 2 ≤ utf8Length cs then do
    let (quote, rest) ← cutAt? 1 cs
    if quote.isSuffixOf cs then
      let (inner, _) ← cutAt? (utf8Length cs - 2) rest
      return String.ofList inner
    else return t.text
  else some t.text

end Token

end FieldQuery
