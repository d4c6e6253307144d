import FieldQuery.Calendar.Date
import FieldQuery.Number.Integer

/-!
# Internet timestamps

A timestamp has a date, a time of day and an offset from universal time, all of fixed widths, and
is read as the moment in universal time. Between the date and the time stands `T`, `t` or a space.
The fraction of a second may have any number of digits, of which nine count. The offset is `Z`, `z`
or a sign before hours and minutes, where the sign may be the mathematical minus.
-/

namespace FieldQuery

namespace Timestamp

/-- The number that the first `n` characters denote, if all are digits, and the rest. -/
def digits? (n : Nat) (cs : List Char) : Option (Nat × List Char) :=
  if (cs.take n).length = n then (natural? (cs.take n)).map fun v => (v, cs.drop n) else none

def char? (p : Char → Bool) : List Char → Option (List Char)
  | [] => none
  | c :: cs => if p c then some cs else none

def date? (cs : List Char) : Option (Date × List Char) := do
  let (year, cs) ← digits? 4 cs
  let cs ← char? (· == '-') cs
  let (month, cs) ← digits? 2 cs
  let cs ← char? (· == '-') cs
  let (day, cs) ← digits? 2 cs
  let date ← Date.of? year month day
  return (date, cs)

/-- The nanoseconds of a fraction, from its first nine digits. -/
def nanoseconds (digits : List Char) : Nat :=
  let kept := digits.take 9
  ((natural? kept).getD 0) * Nat.pow 10 (9 - kept.length)

/-- The fraction after a point, if there is a point. -/
def fraction? : List Char → Option (Nat × List Char)
  | '.' :: cs =>
    let digits := cs.takeWhile Char.isDigit
    if digits.isEmpty then none else some (nanoseconds digits, cs.dropWhile Char.isDigit)
  | cs => some (0, cs)

def sign? : List Char → Option (Int × List Char)
  | '+' :: cs => some (1, cs)
  | '-' :: cs => some (-1, cs)
  | '\u2212' :: cs => some (-1, cs)
  | _ => none

/-- The offset in minutes; less than a day. -/
def offset? : List Char → Option Int
  | ['Z'] => some 0
  | ['z'] => some 0
  | cs => do
    let (sign, cs) ← sign? cs
    let (hours, cs) ← digits? 2 cs
    let cs ← char? (· == ':') cs
    let (minutes, cs) ← digits? 2 cs
    if cs.isEmpty && hours ≤ 23 && minutes ≤ 59 then
      some (sign * (hours * 60 + minutes : Nat))
    else none

/-- The moment in universal time that an internet timestamp denotes. -/
def read? (text : String) : Option Moment := do
  let (date, cs) ← date? text.toList
  let cs ← char? (fun c => c == 'T' || c == 't' || c == ' ') cs
  let (hour, cs) ← digits? 2 cs
  let cs ← char? (· == ':') cs
  let (minute, cs) ← digits? 2 cs
  let cs ← char? (· == ':') cs
  let (second, cs) ← digits? 2 cs
  let (nanosecond, cs) ← fraction? cs
  let offset ← offset? cs
  let moment ← Moment.of? date hour minute second nanosecond
  return moment.minusMinutes offset

end Timestamp

end FieldQuery
