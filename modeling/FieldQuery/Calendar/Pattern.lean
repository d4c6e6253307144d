import FieldQuery.Calendar.Internet
import FieldQuery.Text.Blank

/-!
# Date patterns

Dates as people write them are read by patterns. Blanks before a number are skipped, a number takes
as many digits as there are up to its width, and a year with a sign takes all of them. A gap in a
pattern stands for any number of blanks, none included. A month goes by its English name or the
first three letters of it, in any case.

`moment?` tries an internet timestamp first and then the patterns in turn.
-/

namespace FieldQuery

inductive DatePart where
  | year
  | month
  | day
  | hour
  | minute
  | second
  | monthName
  | gap
  | char (c : Char)
deriving DecidableEq, Repr

/-- What a pattern has read. -/
structure DateFields where
  year : Int := 0
  month : Nat := 0
  day : Nat := 0
  hour : Nat := 0
  minute : Nat := 0
  second : Nat := 0
deriving DecidableEq, Repr

namespace DatePattern

/-- A number of one to `width` digits, and the rest. -/
def number? (width : Nat) (cs : List Char) : Option (Nat × List Char) :=
  let digits := (cs.take width).takeWhile Char.isDigit
  (natural? digits).map fun n => (n, cs.drop digits.length)

/-- A year of up to four digits, or a sign and any number of digits. -/
def year? : List Char → Option (Int × List Char)
  | '-' :: cs => (number? cs.length cs).map fun p => (-(p.1 : Int), p.2)
  | '+' :: cs => (number? cs.length cs).map fun p => ((p.1 : Int), p.2)
  | cs => (number? 4 cs).map fun p => ((p.1 : Int), p.2)

def monthNames : List String :=
  ["january", "february", "march", "april", "may", "june", "july", "august", "september",
    "october", "november", "december"]

/-- The rest of the text after `word`, in any case. -/
def dropWord? (word : List Char) (cs : List Char) : Option (List Char) :=
  if (cs.take word.length).map Char.toLower = word then some (cs.drop word.length) else none

/-- The rest of the text after the name or its first three letters. -/
def dropMonth? (name : List Char) (cs : List Char) : Option (List Char) :=
  (dropWord? (name.take 3) cs).map fun cs => (dropWord? (name.drop 3) cs).getD cs

/-- The number of the first month among `names` that the text starts with, counted from `n`. -/
def monthName? (n : Nat) (cs : List Char) : List String → Option (Nat × List Char)
  | [] => none
  | name :: names =>
    match dropMonth? name.toList cs with
    | some cs => some (n, cs)
    | none => monthName? (n + 1) cs names

def skipBlanks (cs : List Char) : List Char :=
  cs.dropWhile isBlank

def part? (d : DateFields) (cs : List Char) : DatePart → Option (DateFields × List Char)
  | .year => (year? (skipBlanks cs)).map fun p => ({ d with year := p.1 }, p.2)
  | .month => (number? 2 (skipBlanks cs)).map fun p => ({ d with month := p.1 }, p.2)
  | .day => (number? 2 (skipBlanks cs)).map fun p => ({ d with day := p.1 }, p.2)
  | .hour => (number? 2 (skipBlanks cs)).map fun p => ({ d with hour := p.1 }, p.2)
  | .minute => (number? 2 (skipBlanks cs)).map fun p => ({ d with minute := p.1 }, p.2)
  | .second => (number? 2 (skipBlanks cs)).map fun p => ({ d with second := p.1 }, p.2)
  | .monthName => (monthName? 1 cs monthNames).map fun p => ({ d with month := p.1 }, p.2)
  | .gap => some (d, skipBlanks cs)
  | .char c => (Timestamp.char? (· == c) cs).map fun cs => (d, cs)

/-- Reads all parts and leaves nothing over. -/
def fields? (d : DateFields) (cs : List Char) : List DatePart → Option DateFields
  | [] => if cs.isEmpty then some d else none
  | part :: parts =>
    match part? d cs part with
    | some (d, cs) => fields? d cs parts
    | none => none

/-- The moment that the text denotes under the pattern, if there is such a date and time of day. -/
def read? (pattern : List DatePart) (text : String) : Option Moment := do
  let d ← fields? {} text.toList pattern
  let date ← Date.of? d.year d.month d.day
  Moment.of? date d.hour d.minute d.second 0

def isoDate : List DatePart := [.year, .char '-', .month, .char '-', .day]

def toMinutes : List DatePart := isoDate ++ [.gap, .hour, .char ':', .minute]

def toSeconds : List DatePart := toMinutes ++ [.char ':', .second]

def written : List DatePart := [.monthName, .gap, .day, .char ',', .gap, .year]

def all : List (List DatePart) := [toSeconds, toMinutes, isoDate, written]

end DatePattern

def moment? (text : String) : Option Moment :=
  (Timestamp.read? text).or (DatePattern.all.findSome? fun pattern => DatePattern.read? pattern text)

end FieldQuery
