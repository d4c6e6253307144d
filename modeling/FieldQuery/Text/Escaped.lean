import FieldQuery.Text.Invisible

/-!
# Escaped text

Escaped text stands between double quotes and shows every character. Quotes, backslashes and the
common controls have a letter after a backslash; other invisible characters are written by their
hexadecimal number.
-/

namespace FieldQuery

/-- The digits of `n` in lower-case hexadecimal. -/
def hexDigits (n : Nat) : List Char :=
  Nat.toDigits 16 n

def escapedChar (c : Char) : List Char :=
  match c with
  | '\x00' => ['\\', '0']
  | '\t' => ['\\', 't']
  | '\r' => ['\\', 'r']
  | '\n' => ['\\', 'n']
  | '\\' => ['\\', '\\']
  | '"' => ['\\', '"']
  | c => if isInvisible c then ['\\', 'u', '\x7b'] ++ hexDigits c.toNat ++ ['\x7d'] else [c]

def escaped (s : String) : String :=
  String.ofList (['"'] ++ s.toList.flatMap escapedChar ++ ['"'])

end FieldQuery
