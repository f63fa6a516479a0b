import Tariff.Decimal.Shortest

/-!
This module contains the ways a decimal is laid out as text: with the digits around a point, with
one digit before the point and a power of ten, or with a fixed count of places.
-/

namespace Tariff.Decimal

structure Layout where
  /-- The powers of ten of the first digit for which no exponent is written. -/
  positional : Int → Bool
  /-- Whether a whole number without an exponent is written with a zero after the point. -/
  keepsPoint : Bool
  plusSign : Bool
  /-- Which of two equally near shortest decimals is written. -/
  tie : Tie

namespace Layout

def aroundPoint (layout : Layout) (d : Digits) : String :=
  let digits := d.text
  let length := digits.length
  if d.exponent ≥ 0 then
    let whole := digits ++ List.replicate d.exponent.toNat '0'
    .ofList (if layout.keepsPoint then whole ++ ['.', '0'] else whole)
  else
    let places := d.exponent.natAbs
    if places < length then
      .ofList (digits.take (length - places) ++ '.' :: digits.drop (length - places))
    else
      .ofList ('0' :: '.' :: List.replicate (places - length) '0' ++ digits)

def withExponent (layout : Layout) (d : Digits) : String :=
  let exponent := d.leading
  let sign := if exponent < 0 then "-" else if layout.plusSign then "+" else ""
  let mantissa :=
    match d.text with
    | [] => []
    | [digit] => [digit]
    | digit :: rest => digit :: '.' :: rest
  .ofList mantissa ++ "e" ++ sign ++ Nat.repr exponent.natAbs

def finite (layout : Layout) (b : Binary) : String :=
  let d := shortest layout.tie b
  let magnitude :=
    if layout.positional d.leading || b.significand == 0 then layout.aroundPoint d
    else layout.withExponent d
  if b.negative then "-" ++ magnitude else magnitude

def render (layout : Layout) (x : Float) : String :=
  match Binary.ofFloat? x with
  | some b => layout.finite b
  | none => if x.isNaN then "NaN" else if x < 0 then "-inf" else "inf"

end Layout

/--
The whole number nearest to a quotient, a half going to the even neighbour.
-/
def roundDiv (num den : Nat) : Nat :=
  let floor := num / den
  let rest := num % den
  if den < 2 * rest || (2 * rest == den && floor % 2 == 1) then floor + 1 else floor

/--
Write a number with two decimal places. The exact value is rounded, a half to the even neighbour,
and the sign stays even if nothing else does.
-/
def twoPlaces (x : Float) : String :=
  match Binary.ofFloat? x with
  | none => if x.isNaN then "NaN" else if x < 0 then "-inf" else "inf"
  | some b =>
    let hundredths :=
      roundDiv (b.significand * Nat.pow 2 b.exponent.toNat * 100) (Nat.pow 2 (-b.exponent).toNat)
    let cents := hundredths % 100
    let magnitude :=
      Nat.repr (hundredths / 100) ++ "." ++ (if cents < 10 then "0" else "") ++ Nat.repr cents
    if b.negative then "-" ++ magnitude else magnitude

end Tariff.Decimal
