import FieldQuery.Grammar.Replay
import FieldQuery.Schema.Registry
import FieldQuery.Text.Offset
import FieldQuery.Text.Style
import FieldQuery.Token.Line

/-!
# Highlighting a line

A line is cut into segments, each with a style. Tokens are styled by their kind, and fields by what
they resolve to; what stands between tokens is plain. Text from the word with an open quote on is
one segment, and a command is one segment.
-/

namespace FieldQuery

structure Segment where
  style : Style := {}
  text : String
deriving DecidableEq, Repr

/-- The style of a token. A field that may be used differs from one that may not, and both differ
from a name that no field goes by. -/
def TokenKind.style (r : Registry) (text : String) : TokenKind → Style
  | .field =>
    match r.resolve? text with
    | some f => if f.completionEnabled then { bold := true, color := some .cyan }
      else { color := some .red }
    | none => {}
  | .comparator => { color := some .yellow }
  | .connective => { bold := true, color := some .magenta }
  | .prefixOperator => { color := some .magenta }
  | .value | .literalValue => { color := some .green }

/-- A plain segment, unless there is no text for it. -/
def plainSegment (cs : List Char) : List Segment :=
  if cs.isEmpty then [] else [{ text := String.ofList cs }]

/-- The segments of the text from `offset` on, which holds these tokens. -/
def tokenSegments (r : Registry) (offset : Nat) (cs : List Char) :
    List (Token × TokenKind) → List Segment
  | [] => plainSegment cs
  | (t, kind) :: ts =>
    let gap := takeBytes (t.start - offset) cs
    plainSegment gap ++ { style := kind.style r t.text, text := t.text }
      :: tokenSegments r t.stop (cs.drop (gap.length + t.text.length)) ts

/-- The segments of a text in which no quote is open. Other text is one plain segment. -/
def closedSegments (r : Registry) (text : String) : List Segment :=
  match Line.read text with
  | .ok l => tokenSegments r 0 text.toList (l.tokens.zip (Replay.run l.tokens).kinds)
  | .error _ => [{ text }]

/-- The characters from the open quote on, where `found` is the quote that is open before `cs` and
the characters from it on. -/
def fromOpenQuote? (found : Option (Char × List Char)) : List Char → Option (List Char)
  | [] => found.map (·.2)
  | c :: cs =>
    match found with
    | some (quote, _) => fromOpenQuote? (if c = quote then none else found) cs
    | none => fromOpenQuote? (if isQuote c then some (c, c :: cs) else none) cs

/-- The line before the word with the open quote, and from that word on. The word starts after the
last blank before the quote. -/
def splitAtOpenWord? (cs : List Char) : Option (List Char × List Char) :=
  (fromOpenQuote? none cs).map fun rest =>
    let before := cs.take (cs.length - rest.length)
    let start := (before.reverse.dropWhile fun c => !isBlank c).length
    (cs.take start, cs.drop start)

def isCommandLine (line : String) : Bool :=
  (line.toList.dropWhile isBlank).head? = some ':'

def highlight (r : Registry) (enabled : Bool) (line : String) : List Segment :=
  if !enabled then [{ text := line }]
  else if isCommandLine line then [{ style := { bold := true, color := some .blue }, text := line }]
  else
    match splitAtOpenWord? line.toList with
    | some (before, rest) =>
      closedSegments r (String.ofList before) ++
        [{ style := { italic := true, color := some .green }, text := String.ofList rest }]
    | none => closedSegments r line

end FieldQuery
