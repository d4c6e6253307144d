import FieldQuery.Toml.Literal
import FieldQuery.Toml.Quoted
import FieldQuery.Toml.Table

/-!
# TOML documents

A document is a list of lines: headers of tables, and keys with their values. A key may be dotted.
Inside brackets and braces, line breaks and comments may stand wherever spaces may, except in a key,
and a comma may come last. Arrays and inline tables may be nested to a depth of 80, so values are
read by recursion on the depth that is left. The loops over the names of a key, the items of an
array, the pairs of an inline table and the lines of a document go on for as long as the text that
is left gets shorter.
-/

namespace FieldQuery.Toml

/-! Keys -/

def isBareKeyChar (c : Char) : Bool :=
  c.isAlphanum || c == '_' || c == '-'

def simpleKey : Reader String
  | '"' :: cs => shortString '"' cs
  | '\'' :: cs => shortString '\'' cs
  | cs =>
    let key := cs.takeWhile isBareKeyChar
    if key.isEmpty then expected "a key" cs
    else .ok (String.ofList key, cs.dropWhile isBareKeyChar)

/-- A dotted key: the names before the last one, and the last. -/
abbrev Key := List String × String

def names : Reader Key := fun cs => do
  let (key, rest) ← simpleKey cs
  match skipSpaces rest with
  | '.' :: next =>
    let next := skipSpaces next
    if next.length < cs.length then
      let ((way, last), rest) ← names next
      return ((key :: way, last), rest)
    else expected "a key" next
  | rest => return (([], key), rest)
termination_by cs => cs.length

/-- The most names that a key may have. -/
def maxNames : Nat := 80

def dottedKey : Reader Key := fun cs => do
  let (key, rest) ← names cs
  if key.1.length < maxNames then return (key, rest) else expected "fewer names" cs

/-! Values -/

/-- The items of an array, after its opening bracket or a comma. -/
def items (item : Reader Toml) (cs : List Char) : Except Fault (List Toml × List Char) := do
  match ← gap false cs with
  | ']' :: rest => return ([], rest)
  | start =>
    let (t, rest) ← item start
    match ← gap false rest with
    | ']' :: rest => return ([t], rest)
    | ',' :: rest =>
      if rest.length < cs.length then
        let (ts, rest) ← items item rest
        return (t :: ts, rest)
      else expected "an item" rest
    | rest => expected "a comma or a closing bracket" rest
termination_by cs.length

/-- A key and its value. What may stand around the equals sign is passed by `pass`. -/
def pair (pass : List Char → Except Fault (List Char)) (item : Reader Toml) :
    Reader (Key × Toml) := fun cs => do
  let (key, rest) ← dottedKey cs
  let (t, rest) ← item (← pass (← after '=' (← pass rest)))
  return ((key, t), rest)

/-- The pairs of an inline table, after its opening brace or a comma. -/
def pairs (item : Reader Toml) (cs : List Char) :
    Except Fault (List (Key × Toml) × List Char) := do
  match ← gap false cs with
  | '\x7d' :: rest => return ([], rest)
  | start =>
    let (p, rest) ← pair (gap false) item start
    match ← gap false rest with
    | '\x7d' :: rest => return ([p], rest)
    | ',' :: rest =>
      if rest.length < cs.length then
        let (ps, rest) ← pairs item rest
        return (p :: ps, rest)
      else expected "a pair" rest
    | rest => expected "a comma or a closing brace" rest
termination_by cs.length

def tableOf (ps : List (Key × Toml)) : Except TomlError Draft :=
  ps.foldlM (fun (d : Draft) p => d.addValue p.1.1 p.1.2 p.2) []

def isLiteralChar (c : Char) : Bool :=
  c.isAlphanum || c == '_' || c == '-' || c == '+' || c == '.' || c == ':'

/-- The characters of a literal. One space may stand between a date and a time. -/
def literalLength (cs : List Char) : Nat :=
  let run := cs.takeWhile isLiteralChar
  match cs.drop run.length with
  | ' ' :: c :: cs =>
    if c.isDigit && (Timestamp.date? run).any (·.2.isEmpty) then
      run.length + 1 + ((c :: cs).takeWhile isLiteralChar).length
    else run.length
  | _ => run.length

def literal : Reader Toml := fun cs =>
  let n := literalLength cs
  match Literal.value? (cs.take n) with
  | some t => .ok (t, cs.drop n)
  | none => expected "a value" cs

/-- A value with `depth` levels of brackets at most. -/
def value (depth : Nat) : Reader Toml
  | '"' :: '"' :: '"' :: cs => (longString '"' cs).map fun p => (.string p.1, p.2)
  | '\'' :: '\'' :: '\'' :: cs => (longString '\'' cs).map fun p => (.string p.1, p.2)
  | '"' :: cs => (shortString '"' cs).map fun p => (.string p.1, p.2)
  | '\'' :: cs => (shortString '\'' cs).map fun p => (.string p.1, p.2)
  | '[' :: cs =>
    match depth with
    | 0 => expected "fewer brackets" cs
    | depth + 1 => (items (value depth) cs).map fun p => (.array p.1, p.2)
  | '\x7b' :: cs =>
    match depth with
    | 0 => expected "fewer brackets" cs
    | depth + 1 => do
      let (ps, rest) ← pairs (value depth) cs
      match tableOf ps with
      | .ok d => return (d.close, rest)
      | .error e => expected s!"an inline table ({e.message})" cs
  | cs => literal cs

def maxDepth : Nat := 80

/-! Lines -/

inductive Statement where
  | header (way : List String) (key : String)
  | elementHeader (way : List String) (key : String)
  | pair (way : List String) (key : String) (t : Toml)

/-- The header after its first bracket. -/
def header : List Char → Except Fault (Statement × List Char)
  | '[' :: cs => do
    let ((way, key), rest) ← dottedKey (skipSpaces cs)
    let rest ← after ']' (← after ']' rest)
    return (.elementHeader way key, rest)
  | cs => do
    let ((way, key), rest) ← dottedKey (skipSpaces cs)
    return (.header way key, ← after ']' rest)

def statement : List Char → Except Fault (Statement × List Char)
  | '[' :: cs => header cs
  | cs => do
    let (((way, key), t), rest) ← pair (fun cs => .ok (skipSpaces cs)) (value maxDepth) cs
    return (.pair way key t, rest)

def statements (cs : List Char) : Except Fault (List Statement) := do
  match ← gap false cs with
  | [] => return []
  | start =>
    let (s, rest) ← statement start
    let rest ← lineEnd rest
    if rest.length < cs.length then return s :: (← statements rest)
    else expected "a statement" rest
termination_by cs.length

/-- A draft and the way to the table that pairs are added to. -/
structure Building where
  draft : Draft := []
  current : List String := []

def Building.add (b : Building) : Statement → Except TomlError Building
  | .header way key => do
    return { draft := ← b.draft.change way (Draft.openTable key), current := way ++ [key] }
  | .elementHeader way key => do
    return { draft := ← b.draft.change way (Draft.openElement key), current := way ++ [key] }
  | .pair way key t => do
    return { b with draft := ← b.draft.change b.current fun d => d.addValue way key t }

/-- The table that a document denotes. A byte order mark before it does not count. -/
def read (text : String) : Except TomlError Toml := do
  let cs := match text.toList with
    | '\uFEFF' :: cs => cs
    | cs => cs
  let ss ← (statements cs).mapError fun f => f.inDocument cs
  let b ← ss.foldlM Building.add {}
  return b.draft.close

end FieldQuery.Toml
