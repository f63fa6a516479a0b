/-!
This module contains decimal numerals as they are written in tables: digits with an optional point
and an optional power of ten, and the names of values that are not finite.
-/

namespace Tariff.Decimal

/--
The number `digits * 10 ^ exponent`, with a sign.
-/
structure Numeral where
  negative : Bool
  digits : Nat
  exponent : Int
deriving Repr, DecidableEq

def readDigits (cs : List Char) : Nat :=
  cs.foldl (fun n c => 10 * n + (c.toNat - '0'.toNat)) 0

namespace Numeral

/--
The nearest `Float`. A numeral that is too large stands for an infinite value.
-/
def toFloat (n : Numeral) : Float :=
  let x := Float.ofScientific n.digits (n.exponent < 0) n.exponent.natAbs
  if n.negative then -x else x

def splitSign : List Char → Bool × List Char
  | '-' :: cs => (true, cs)
  | '+' :: cs => (false, cs)
  | cs => (false, cs)

/--
Read the power of ten after a numeral's digits: nothing, or the letter `e` with an optional sign and
at least one digit.
-/
def exponent? : List Char → Option Int
  | [] => some 0
  | e :: cs =>
    if e == 'e' || e == 'E' then
      let (negative, digits) := splitSign cs
      if digits.isEmpty || !digits.all Char.isDigit then
        none
      else
        some (if negative then -readDigits digits else readDigits digits)
    else
      none

/--
Read digits with an optional point among, before or after them, then an optional power of ten.
-/
def unsigned? (negative : Bool) (cs : List Char) : Option Numeral :=
  let whole := cs.takeWhile Char.isDigit
  let afterWhole := cs.dropWhile Char.isDigit
  let (fraction, rest) :=
    match afterWhole with
    | '.' :: cs => (cs.takeWhile Char.isDigit, cs.dropWhile Char.isDigit)
    | cs => ([], cs)
  if whole.isEmpty && fraction.isEmpty then
    none
  else
    (exponent? rest).map fun exponent =>
      { negative, digits := readDigits (whole ++ fraction), exponent := exponent - fraction.length }

end Numeral

/--
Read a number: an optional sign, then digits or the name of a value that is not finite, in letters
of either case. The whole text has to be used.
-/
def readNumber? (text : String) : Option Float :=
  let (negative, cs) := Numeral.splitSign text.toList
  let name := String.ofList (cs.map Char.toLower)
  if name == "inf" || name == "infinity" then
    some (if negative then -(1.0 / 0.0) else 1.0 / 0.0)
  else if name == "nan" then
    some (0.0 / 0.0)
  else
    (Numeral.unsigned? negative cs).map Numeral.toFloat

end Tariff.Decimal
