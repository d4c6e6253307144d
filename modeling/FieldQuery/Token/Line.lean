import FieldQuery.Text.Blank
import FieldQuery.Text.Offset
import FieldQuery.Token.Basic

/-!
# Reading a line

A line is read one character at a time. The reader is in a gap between words or inside a word, and
inside a word a quote may be open. A blank ends the word unless a quote is open; the end of the
line ends it too, and leaves it open. A line that ends inside a quote has no tokens at all.
-/

namespace FieldQuery

inductive TokenError where
  /-- A quote is open at the end of the line. -/
  | unterminatedLiteral
deriving DecidableEq, Repr

def TokenError.message : TokenError → String
  | .unterminatedLiteral => "unterminated quoted literal"

/-- The quote that is open after `c`, if `quote` was open before it. -/
def quoteAfter (quote : Option Char) (c : Char) : Option Char :=
  match quote with
  | some q => if c = q then none else some q
  | none => if isQuote c then some c else none

structure OpenWord where
  start : Nat
  text : String := ""
  quote : Option Char := none
deriving DecidableEq, Repr

namespace OpenWord

def push (w : OpenWord) (c : Char) : OpenWord :=
  { w with text := w.text.push c, quote := quoteAfter w.quote c }

def startsWithQuote (w : OpenWord) : Bool :=
  w.text.toList.head?.any isQuote

/-- The token of a word that ends at `stop`. -/
def token (w : OpenWord) (stop : Nat) (closed : Bool) : Token where
  text := w.text
  start := w.start
  stop := stop
  literal := w.startsWithQuote
  closed := closed

end OpenWord

structure Reader where
  offset : Nat := 0
  /-- The words read so far that a blank has ended. -/
  tokens : List Token := []
  word : Option OpenWord := none
deriving DecidableEq, Repr

namespace Reader

def step (r : Reader) (c : Char) : Reader :=
  let next := r.offset + c.utf8Size
  match r.word with
  | none =>
    if isBlank c then { r with offset := next }
    else { r with offset := next, word := some (OpenWord.push { start := r.offset } c) }
  | some w =>
    if w.quote.isNone && isBlank c then
      { offset := next, tokens := r.tokens ++ [w.token r.offset true], word := none }
    else { r with offset := next, word := some (w.push c) }

def run (cs : List Char) : Reader :=
  cs.foldl step {}

def finish (r : Reader) : Except TokenError (List Token) :=
  match r.word with
  | none => .ok r.tokens
  | some w =>
    if w.quote.isSome then .error .unterminatedLiteral
    else .ok (r.tokens ++ [w.token r.offset false])

end Reader

/-- A line and its tokens, of which only the last may be open. -/
structure Line where
  input : String
  tokens : List Token
deriving DecidableEq, Repr

namespace Line

def read (input : String) : Except TokenError Line :=
  (Reader.run input.toList).finish.map fun tokens => { input, tokens }

def closedTokens (l : Line) : List Token :=
  l.tokens.filter (·.closed)

/-- The last token, if it is still being typed. -/
def openToken? (l : Line) : Option Token :=
  l.tokens.getLast?.filter (!·.closed)

/-- The text of the open token, empty if the line ends in a blank. -/
def openText (l : Line) : String :=
  (l.openToken?.map (·.text)).getD ""

def head (l : Line) : String :=
  match l.openToken? with
  | some t => String.ofList (takeBytes t.start l.input.toList)
  | none => l.input

end Line

end FieldQuery
