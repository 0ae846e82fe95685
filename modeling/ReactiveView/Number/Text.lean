/-
# Numbers as text

A number is written positionally with the fewest digits that read back, never
with an exponent.  A displayed number shows integers below `2 ^ 53` without a
sign of zero.  Reading accepts a sign, decimal digits with a point, an exponent,
and the names of infinity and of the undefined number.
-/

import ReactiveView.Number.Shortest

namespace ReactiveView
namespace Number

/-- A decimal in positional notation: zeros fill the places up to the point. -/
def Decimal.positional (d : Decimal) : String :=
  let digits := Nat.toDigits 10 d.digits
  if 0 ≤ d.exponent then
    String.ofList (digits ++ List.replicate d.exponent.toNat '0')
  else
    let places := (-d.exponent).toNat
    let padded := List.replicate (places + 1 - digits.length) '0' ++ digits
    let whole := padded.length - places
    String.ofList (padded.take whole ++ '.' :: padded.drop whole)

/-- A number with the fewest digits that read back; the sign of zero is kept. -/
def plain (x : Float) : String :=
  if x.isNaN then "NaN"
  else
    let (negative, m, q) := parts x
    (if negative then "-" else "") ++
      (if x.isInf then "inf"
        else if m = 0 then "0"
        else match shortest m q with
          | some d => d.positional
          | none => "")

/-- A number as displayed: negative zero is `0`.  Whole numbers below `2 ^ 53`
are written as integers by `plain` already. -/
def display (x : Float) : String :=
  if x == 0 then "0" else plain x

/-- The value of a run of decimal digits behind `n`. -/
def digitsValue (n : Nat) (digits : List Char) : Nat :=
  digits.foldl (fun n c => 10 * n + (c.toNat - '0'.toNat)) n

/-- The number `digits · 10 ^ exponent`, correctly rounded.  Exponents far outside
the range of numbers give zero or infinity at once. -/
def ofDecimal (digits : Nat) (exponent : Int) : Float :=
  let magnitude : Int := (Nat.toDigits 10 digits).length + exponent
  if digits = 0 || magnitude < -400 then 0
  else if magnitude > 400 then 1 / 0
  else Float.ofScientific digits (exponent < 0) exponent.natAbs

/-- Reads an exponent: a sign and at least one digit. -/
def readExponent? (text : List Char) : Option Int :=
  let (negative, digits) := match text with
    | '-' :: rest => (true, rest)
    | '+' :: rest => (false, rest)
    | rest => (false, rest)
  if digits.isEmpty || !digits.all Char.isDigit then none
  else
    let n : Int := digitsValue 0 digits
    some (if negative then -n else n)

/-- Reads a number without sign: a name, or digits with at most one point and an
exponent. -/
def readUnsigned? (text : List Char) : Option Float :=
  let lower := String.ofList (text.map Char.toLower)
  if lower = "inf" || lower = "infinity" then some (1 / 0)
  else if lower = "nan" then some (0 / 0)
  else do
    let whole := text.takeWhile Char.isDigit
    let rest := text.dropWhile Char.isDigit
    let (fraction, rest) := match rest with
      | '.' :: rest => (rest.takeWhile Char.isDigit, rest.dropWhile Char.isDigit)
      | rest => ([], rest)
    guard (!(whole.isEmpty && fraction.isEmpty))
    let exponent ← match rest with
      | [] => some 0
      | c :: rest => if c = 'e' || c = 'E' then readExponent? rest else none
    return ofDecimal (digitsValue (digitsValue 0 whole) fraction) (exponent - fraction.length)

/-- Reads a number. -/
def read? (text : String) : Option Float :=
  match text.toList with
  | '-' :: rest => (readUnsigned? rest).map Float.neg
  | '+' :: rest => readUnsigned? rest
  | rest => readUnsigned? rest

/-- The number nearest to an integer. -/
def ofInt (n : Int) : Float :=
  if n < 0 then -(Float.ofNat n.natAbs) else Float.ofNat n.natAbs

end Number
end ReactiveView
