import FieldQuery.Calendar.Internet
import FieldQuery.Number.Radix
import FieldQuery.Toml.Value

/-!
# TOML literals

A value without quotes or brackets is a truth value, a number or a date, a time or both. Digits may
be grouped by underscores that stand between digits. Integers fit 128 bits, with a sign or without
one, and decimals round to a finite number of 64 bits; other numbers are out of range, and so is the
mark of a base without digits. The seconds of a time may be left out.
-/

namespace FieldQuery.Toml.Literal

/-- The characters without the underscores, if these stand between digits. -/
def ungrouped? (isDigit : Char → Bool) : List Char → Option (List Char)
  | [] => none
  | [c] => if isDigit c then some [c] else none
  | c :: '_' :: cs => if isDigit c then (ungrouped? isDigit cs).map (c :: ·) else none
  | c :: cs => if isDigit c then (ungrouped? isDigit cs).map (c :: ·) else none

/-- The digits of a decimal number: no zero in front of another digit. -/
def decimalDigits? (cs : List Char) : Option (List Char) :=
  (ungrouped? Char.isDigit cs).filter fun digits => digits.length = 1 || digits.head? ≠ some '0'

/-- An integer as it is written, without underscores. -/
structure Numeral where
  negative : Bool := false
  base : Nat
  digits : List Char
deriving DecidableEq, Repr

namespace Numeral

def decimal? (negative : Bool) (cs : List Char) : Option Numeral :=
  (decimalDigits? cs).map fun digits => { negative, base := 10, digits }

/-- The number in the digits after the mark of its base, if there are any. -/
def marked? (base : Nat) (isDigit : Char → Bool) (cs : List Char) : Option Numeral :=
  if cs.isEmpty then some { base, digits := [] }
  else (ungrouped? isDigit cs).map fun digits => { base, digits }

/-- Only decimal numbers take a sign. -/
def read? : List Char → Option Numeral
  | '+' :: cs => decimal? false cs
  | '-' :: cs => decimal? true cs
  | '0' :: 'x' :: cs => marked? 16 isHexDigit cs
  | '0' :: 'o' :: cs => marked? 8 (fun c => '0' ≤ c && c ≤ '7') cs
  | '0' :: 'b' :: cs => marked? 2 (fun c => c == '0' || c == '1') cs
  | cs => decimal? false cs

/-- The number that is denoted, if it is in range. -/
def value? (n : Numeral) : Option Int :=
  let magnitude : Int := ofDigits n.base n.digits
  let value := if n.negative then -magnitude else magnitude
  if !n.digits.isEmpty && -Int.pow 2 127 ≤ value && value < Int.pow 2 128 then some value else none

def toml (n : Numeral) (literal : String) : Toml :=
  match n.value? with
  | some value => .integer value
  | none => .outOfRange literal

end Numeral

/-- The number `n * 10 ^ e` rounds to a finite number. The two early answers keep the powers of ten
small. -/
def roundsToFinite (digits : List Char) (e : Int) : Bool :=
  let n := ofDigits 10 digits
  let bound := Nat.pow 2 1024 - Nat.pow 2 970
  if n = 0 || digits.length + e < 300 then true
  else if 400 < e then false
  else if 0 ≤ e then n * Nat.pow 10 e.toNat < bound
  else n < bound * Nat.pow 10 (-e).toNat

/-- The exponent after its mark: a sign and digits. -/
def exponent? : List Char → Option Int
  | '+' :: cs => (ungrouped? Char.isDigit cs).map fun digits => (ofDigits 10 digits : Int)
  | '-' :: cs => (ungrouped? Char.isDigit cs).map fun digits => -(ofDigits 10 digits : Int)
  | cs => (ungrouped? Char.isDigit cs).map fun digits => (ofDigits 10 digits : Int)

/-- The digits and the power of ten of a decimal without a sign, which has a whole part, and a
fraction or an exponent or both. -/
def scaled? (cs : List Char) : Option (List Char × Int) :=
  let isMark (c : Char) : Bool := c == 'e' || c == 'E'
  let number := cs.takeWhile fun c => !isMark c
  let whole := number.takeWhile (· ≠ '.')
  let fraction := match number.dropWhile (· ≠ '.') with
    | [] => some []
    | _ :: cs => ungrouped? Char.isDigit cs
  let exponent := match cs.dropWhile fun c => !isMark c with
    | [] => some 0
    | _ :: cs => exponent? cs
  match decimalDigits? whole, fraction, exponent with
  | some whole, some fraction, some exponent =>
    if cs.any fun c => c == '.' || isMark c then
      some (whole ++ fraction, exponent - fraction.length)
    else none
  | _, _, _ => none

def decimal? (cs : List Char) : Option Toml :=
  let literal := String.ofList cs
  let unsigned := match cs with
    | '+' :: cs => cs
    | '-' :: cs => cs
    | cs => cs
  if String.ofList unsigned ∈ ["inf", "nan"] then some (.decimal literal)
  else
    (scaled? unsigned).map fun (digits, e) =>
      if roundsToFinite digits e then .decimal literal else .outOfRange literal

/-- The rest after the seconds of a time of day, if there are seconds. -/
def afterSeconds? : List Char → Option (List Char)
  | ':' :: cs => do
    let (second, cs) ← Timestamp.digits? 2 cs
    let (_, cs) ← Timestamp.fraction? cs
    if second ≤ 60 then some cs else none
  | cs => some cs

def afterTime? (cs : List Char) : Option (List Char) := do
  let (hour, cs) ← Timestamp.digits? 2 cs
  let cs ← Timestamp.char? (· == ':') cs
  let (minute, cs) ← Timestamp.digits? 2 cs
  if hour ≤ 23 && minute ≤ 59 then afterSeconds? cs else none

/-- A date, a time of day, or both with an offset or without one. -/
def isMoment (cs : List Char) : Bool :=
  match Timestamp.date? cs with
  | some (_, []) => true
  | some (_, c :: cs) =>
    (c == 'T' || c == 't' || c == ' ') &&
      (afterTime? cs).any fun rest => rest.isEmpty || (Timestamp.offset? rest).isSome
  | none => (afterTime? cs).any (·.isEmpty)

def value? (cs : List Char) : Option Toml :=
  let text := String.ofList cs
  if text = "true" then some (.boolean true)
  else if text = "false" then some (.boolean false)
  else if let some n := Numeral.read? cs then some (n.toml text)
  else if let some t := decimal? cs then some t
  else if isMoment cs then some (.moment text)
  else none

end FieldQuery.Toml.Literal
