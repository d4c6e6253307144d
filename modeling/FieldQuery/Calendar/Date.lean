/-!
# Dates and moments

Dates of the proleptic Gregorian calendar, with a year zero and years before it. A moment is a date
with a time of day, to the nanosecond; its second may be 60, a leap second. `Moment.text` writes a
moment with the fewest fraction digits, in groups of three, that lose nothing.
-/

namespace FieldQuery

structure Date where
  year : Int
  month : Nat
  day : Nat
deriving DecidableEq, Repr

def isLeapYear (year : Int) : Bool :=
  year % 4 = 0 && (year % 100 ≠ 0 || year % 400 = 0)

def daysInMonth (year : Int) (month : Nat) : Nat :=
  match month with
  | 2 => if isLeapYear year then 29 else 28
  | 4 | 6 | 9 | 11 => 30
  | _ => 31

namespace Date

/-- The first and the last year that dates may have. -/
def minYear : Int := -262143

def maxYear : Int := 262142

def of? (year : Int) (month day : Nat) : Option Date :=
  if minYear ≤ year ∧ year ≤ maxYear ∧ 1 ≤ month ∧ month ≤ 12 ∧ 1 ≤ day
      ∧ day ≤ daysInMonth year month then
    some { year, month, day }
  else none

def next (d : Date) : Date :=
  if d.day < daysInMonth d.year d.month then { d with day := d.day + 1 }
  else if d.month < 12 then { d with month := d.month + 1, day := 1 }
  else { year := d.year + 1, month := 1, day := 1 }

def prev (d : Date) : Date :=
  if 1 < d.day then { d with day := d.day - 1 }
  else if 1 < d.month then
    { d with month := d.month - 1, day := daysInMonth d.year (d.month - 1) }
  else { year := d.year - 1, month := 12, day := 31 }

end Date

structure Moment where
  date : Date
  hour : Nat := 0
  minute : Nat := 0
  /-- At most 60. -/
  second : Nat := 0
  nanosecond : Nat := 0
deriving DecidableEq, Repr

/-- The decimal digits of `n`, with zeros in front up to `width` digits. -/
def padded (width n : Nat) : String :=
  let digits := toString n
  String.ofList (List.replicate (width - digits.length) '0') ++ digits

/-- Years from 0 to 9999 have four digits; others have a sign, and at least four digits. -/
def yearText (year : Int) : String :=
  if 0 ≤ year ∧ year ≤ 9999 then padded 4 year.toNat
  else (if year < 0 then "-" else "+") ++ padded 4 year.natAbs

def fractionText (nanosecond : Nat) : String :=
  if nanosecond = 0 then ""
  else if nanosecond % 1000000 = 0 then "." ++ padded 3 (nanosecond / 1000000)
  else if nanosecond % 1000 = 0 then "." ++ padded 6 (nanosecond / 1000)
  else "." ++ padded 9 nanosecond

def Date.text (d : Date) : String :=
  yearText d.year ++ "-" ++ padded 2 d.month ++ "-" ++ padded 2 d.day

namespace Moment

def of? (date : Date) (hour minute second nanosecond : Nat) : Option Moment :=
  if hour ≤ 23 ∧ minute ≤ 59 ∧ second ≤ 60 then
    some { date, hour, minute, second, nanosecond }
  else none

/-- The moment `minutes` earlier, for less than a day in either direction. The second stays what it
is, so a leap second stays one. -/
def minusMinutes (m : Moment) (minutes : Int) : Moment :=
  let total := (m.hour * 60 + m.minute : Int) - minutes
  let date := if total < 0 then m.date.prev else if 1440 ≤ total then m.date.next else m.date
  let inDay := (total % 1440).toNat
  { m with date, hour := inDay / 60, minute := inDay % 60 }

def text (m : Moment) : String :=
  m.date.text ++ " " ++ padded 2 m.hour ++ ":" ++ padded 2 m.minute ++ ":" ++ padded 2 m.second
    ++ fractionText m.nanosecond

end Moment

end FieldQuery
