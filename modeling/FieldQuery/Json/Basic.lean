/-!
# JSON values and their text

Objects keep their members in the order in which they are given. Text is compact, or indented by
two spaces for each level; an empty array or object is written without a break inside.
-/

namespace FieldQuery

inductive Json where
  | null
  | bool (b : Bool)
  | string (s : String)
  | array (items : List Json)
  | object (members : List (String × Json))

namespace Json

def strings (ss : List String) : Json :=
  array (ss.map string)

def optional (s : Option String) : Json :=
  (s.map string).getD null

/-- The lower-case hexadecimal digit of a number below sixteen. -/
def hexDigit (n : Nat) : Char :=
  Nat.digitChar n

def escapedChar (c : Char) : List Char :=
  match c with
  | '"' => ['\\', '"']
  | '\\' => ['\\', '\\']
  | '\n' => ['\\', 'n']
  | '\r' => ['\\', 'r']
  | '\t' => ['\\', 't']
  | '\x08' => ['\\', 'b']
  | '\x0c' => ['\\', 'f']
  | c =>
    if c.toNat < 0x20 then
      ['\\', 'u', '0', '0', hexDigit (c.toNat / 16), hexDigit (c.toNat % 16)]
    else [c]

/-- The text between double quotes, with quotes, backslashes and controls escaped. -/
def quoted (s : String) : String :=
  String.ofList (['"'] ++ s.toList.flatMap escapedChar ++ ['"'])

mutual

def compact : Json → String
  | null => "null"
  | bool b => if b then "true" else "false"
  | string s => quoted s
  | array items => "[" ++ ",".intercalate (compactItems items) ++ "]"
  | object members => "\x7b" ++ ",".intercalate (compactMembers members) ++ "\x7d"

def compactItems : List Json → List String
  | [] => []
  | j :: js => compact j :: compactItems js

def compactMembers : List (String × Json) → List String
  | [] => []
  | (key, j) :: js => (quoted key ++ ":" ++ compact j) :: compactMembers js

end

/-- The start of a line at a level. -/
def newline (level : Nat) : String :=
  String.ofList ('\n' :: List.replicate (2 * level) ' ')

/-- Items on lines of their own, between brackets. -/
def block (opening closing : String) (level : Nat) (items : List String) : String :=
  if items.isEmpty then opening ++ closing
  else
    opening ++ newline (level + 1) ++ ("," ++ newline (level + 1)).intercalate items
      ++ newline level ++ closing

mutual

def indented (level : Nat) : Json → String
  | null => "null"
  | bool b => if b then "true" else "false"
  | string s => quoted s
  | array items => block "[" "]" level (indentedItems (level + 1) items)
  | object members => block "\x7b" "\x7d" level (indentedMembers (level + 1) members)

def indentedItems (level : Nat) : List Json → List String
  | [] => []
  | j :: js => indented level j :: indentedItems level js

def indentedMembers (level : Nat) : List (String × Json) → List String
  | [] => []
  | (key, j) :: js => (quoted key ++ ": " ++ indented level j) :: indentedMembers level js

end

def pretty (j : Json) : String :=
  indented 0 j

end Json

end FieldQuery
