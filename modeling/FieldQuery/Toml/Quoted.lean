import FieldQuery.Number.Radix
import FieldQuery.Toml.Reader

/-!
# TOML strings

A basic string stands between double quotes and has escapes; a literal string stands between single
quotes and has none. Between three quotes a string may have line breaks, of which one right after
the opening quotes does not count, and one or two quotes. A backslash at the end of a line of a
basic string takes away the break and all spaces and breaks after it.

`quoted` writes a string in the plainest way that needs no escapes, and otherwise as a basic string.
-/

namespace FieldQuery.Toml

/-! Reading -/

/-- Adds a character in front of those that a reader has read. -/
def push (c : Char) (r : Except Fault (List Char × List Char)) :
    Except Fault (List Char × List Char) :=
  r.map fun p => (c :: p.1, p.2)

/-- What stands on one line up to the closing quote. An escaped character closes nothing. -/
def shortBody (quote : Char) : Reader (List Char)
  | [] => expected "a closing quote" []
  | c :: cs =>
    if c = quote then .ok ([], cs)
    else if isControl c then expected "a closing quote" (c :: cs)
    else if c = '\\' && quote = '"' then
      match cs with
      | [] => expected "an escape" []
      | d :: cs => push c (push d (shortBody quote cs))
    else push c (shortBody quote cs)

/-- What stands up to three closing quotes. Quotes after these belong to the string, two at most. -/
def longBody (quote : Char) : Reader (List Char)
  | [] => expected "closing quotes" []
  | '\n' :: cs => push '\n' (longBody quote cs)
  | '\r' :: '\n' :: cs => push '\r' (push '\n' (longBody quote cs))
  | c :: cs =>
    if c = quote && cs.take 2 = [quote, quote] then
      let extra := ((cs.drop 2).takeWhile (· = quote)).take 2
      .ok (extra, cs.drop (2 + extra.length))
    else if isControl c then expected "closing quotes" (c :: cs)
    else if c = '\\' && quote = '"' then
      match cs with
      | [] => expected "an escape" []
      | d :: cs => push c (push d (longBody quote cs))
    else push c (longBody quote cs)

def isBreak (c : Char) : Bool :=
  c == '\n' || c == '\r'

/-- The lines joined where a backslash ends one; `skipping` after such a backslash. -/
def joinLines (skipping : Bool) : List Char → List Char
  | [] => []
  | '\\' :: cs =>
    if (afterBreak? (skipSpaces cs)).isSome then joinLines true cs
    else
      match cs with
      | [] => ['\\']
      | c :: cs => '\\' :: c :: joinLines false cs
  | c :: cs =>
    if skipping && (isSpace c || isBreak c) then joinLines true cs
    else c :: joinLines false cs

/-- The character that a letter after a backslash stands for. -/
def letterEscape? : Char → Option Char
  | 'b' => some '\x08'
  | 'e' => some '\x1b'
  | 't' => some '\t'
  | 'n' => some '\n'
  | 'f' => some '\x0c'
  | 'r' => some '\r'
  | '"' => some '"'
  | '\\' => some '\\'
  | _ => none

def numbered? (digits : List Char) : Option Char :=
  let n := ofDigits 16 digits
  if digits.all isHexDigit && (n < 0xD800 || (0xDFFF < n && n < 0x110000)) then
    some (Char.ofNat n)
  else none

/-- The characters with every escape replaced by what it stands for. -/
def unescape : List Char → Option (List Char)
  | [] => some []
  | '\\' :: 'x' :: a :: b :: cs => do
    let x ← numbered? [a, b]
    return x :: (← unescape cs)
  | '\\' :: 'u' :: a :: b :: c :: d :: cs => do
    let x ← numbered? [a, b, c, d]
    return x :: (← unescape cs)
  | '\\' :: 'U' :: a :: b :: c :: d :: e :: f :: g :: h :: cs => do
    let x ← numbered? [a, b, c, d, e, f, g, h]
    return x :: (← unescape cs)
  | '\\' :: c :: cs => do
    let x ← letterEscape? c
    return x :: (← unescape cs)
  | '\\' :: [] => none
  | c :: cs => (unescape cs).map (c :: ·)

def shortString (quote : Char) : Reader String := fun cs => do
  let (body, rest) ← shortBody quote cs
  match if quote = '"' then unescape body else some body with
  | some s => return (String.ofList s, rest)
  | none => expected "valid escapes" cs

def longString (quote : Char) : Reader String := fun cs => do
  let cs := (afterBreak? cs).getD cs
  let (body, rest) ← longBody quote cs
  match if quote = '"' then unescape (joinLines false body) else some body with
  | some s => return (String.ofList s, rest)
  | none => expected "valid escapes" cs

/-! Writing -/

def longestRun (c : Char) (cs : List Char) : Nat :=
  (cs.foldl (fun r d => let n := if d = c then r.1 + 1 else 0; (n, max r.2 n)) (0, 0)).2

/-- A character other than a double quote, as a basic string has it. -/
def basicChar (long : Bool) (c : Char) : List Char :=
  match c with
  | '\x08' => ['\\', 'b']
  | '\t' => ['\\', 't']
  | '\n' => if long then ['\n'] else ['\\', 'n']
  | '\x0c' => ['\\', 'f']
  | '\r' => ['\\', 'r']
  | '\\' => ['\\', '\\']
  | c =>
    if isControl c then
      ['\\', 'u', '0', '0'] ++ [c.toNat / 16, c.toNat % 16].map fun n => (Nat.digitChar n).toUpper
    else [c]

/-- The characters of a basic string, after `run` double quotes. Two of these in a row may stand as
they are in a long string, and none in a short one. -/
def basicBody (long : Bool) (run : Nat) : List Char → List Char
  | [] => []
  | '"' :: cs =>
    if run < (if long then 2 else 0) then '"' :: basicBody long (run + 1) cs
    else '\\' :: '"' :: basicBody long 0 cs
  | c :: cs => basicChar long c ++ basicBody long 0 cs

/-- The opening quotes of a long string, with a line break if the string has one. -/
def longQuotes (quote : Char) (cs : List Char) : List Char :=
  [quote, quote, quote] ++ if '\n' ∈ cs then ['\n'] else []

def basicString (long : Bool) (cs : List Char) : List Char :=
  if long then longQuotes '"' cs ++ basicBody true 0 cs ++ ['"', '"', '"']
  else ['"'] ++ basicBody false 0 cs ++ ['"']

def literalString (long : Bool) (cs : List Char) : List Char :=
  if long then longQuotes '\'' cs ++ cs ++ ['\'', '\'', '\'']
  else ['\''] ++ cs ++ ['\'']

/-- The text between quotes: on one line and without escapes if that can be, then without escapes,
and then with them. -/
def quoted (s : String) : String :=
  let cs := s.toList
  let double := longestRun '"' cs
  let single := longestRun '\'' cs
  let controls := cs.any fun c => isControl c && c != '\n'
  let breaks := cs.contains '\n'
  let backslashes := cs.contains '\\'
  String.ofList <|
    if !controls && !backslashes && double = 0 && !breaks then basicString false cs
    else if !controls && single = 0 && !breaks then literalString false cs
    else if !controls && !backslashes && double ≤ 2 then basicString true cs
    else if !controls && single ≤ 2 then literalString true cs
    else basicString breaks cs

end FieldQuery.Toml
