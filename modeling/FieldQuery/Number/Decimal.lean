/-!
# Decimal literals

A decimal literal is an optional sign before a number or a special value. A number has digits on
at least one side of an optional point, and may end in an exponent. The special values are infinity
and not-a-number. Only the shape of the literal counts: a number too large for any range is one.
-/

namespace FieldQuery

def dropSign : List Char → List Char
  | '+' :: cs => cs
  | '-' :: cs => cs
  | cs => cs

/-- An exponent mark, an optional sign and digits. -/
def isExponent : List Char → Bool
  | 'e' :: cs | 'E' :: cs =>
    let digits := dropSign cs
    !digits.isEmpty && digits.all Char.isDigit
  | _ => false

/-- The fraction after a whole part of `whole` digits, and the exponent. -/
def isFractionAndExponent (whole : Nat) (cs : List Char) : Bool :=
  let fraction := match cs with
    | '.' :: cs => cs.takeWhile Char.isDigit
    | _ => []
  let rest := match cs with
    | '.' :: cs => cs.dropWhile Char.isDigit
    | _ => cs
  (0 < whole + fraction.length) && (rest.isEmpty || isExponent rest)

def isSpecialNumber (cs : List Char) : Bool :=
  (String.ofList cs).toLower ∈ ["inf", "infinity", "nan"]

def isDecimalLiteral (text : String) : Bool :=
  let cs := dropSign text.toList
  isFractionAndExponent (cs.takeWhile Char.isDigit).length (cs.dropWhile Char.isDigit)
    || isSpecialNumber cs

end FieldQuery
