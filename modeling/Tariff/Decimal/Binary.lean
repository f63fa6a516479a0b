/-!
This module contains the exact reading of a `Float`: a finite one is a whole number of units, each a
power of two. Rounding to whole numbers and the order used for sorting are computed from it.
-/

namespace Tariff.Decimal

/--
The finite number `significand * 2 ^ exponent`, with a sign that zero has too.
-/
structure Binary where
  negative : Bool
  significand : Nat
  exponent : Int
deriving Repr, DecidableEq

namespace Binary

/--
Read a finite `Float` exactly. Infinite and undefined values have no such reading.
-/
def ofFloat? (x : Float) : Option Binary :=
  let bits := x.toBits.toNat
  let fraction : Nat := bits % Nat.pow 2 52
  let scale : Nat := bits / Nat.pow 2 52 % Nat.pow 2 11
  let negative := bits / Nat.pow 2 63 == 1
  if scale == 2047 then
    none
  else if scale == 0 then
    some { negative, significand := fraction, exponent := -1074 }
  else
    some { negative, significand := Nat.pow 2 52 + fraction, exponent := (scale : Int) - 1075 }

def signed (negative : Bool) (magnitude : Nat) : Float :=
  let x := Float.ofScientific magnitude false 0
  if negative then -x else x

/--
Round to a whole number: `up negative whole rest unit` says whether a magnitude of
`whole + rest / unit` goes to `whole + 1`. Whole numbers stay as they are.
-/
def toWhole (up : Bool → Nat → Nat → Nat → Bool) (x : Float) : Float :=
  match ofFloat? x with
  | none => x
  | some b =>
    if b.exponent ≥ 0 then
      x
    else
      let unit := Nat.pow 2 b.exponent.natAbs
      let whole := b.significand / unit
      let rest := b.significand % unit
      signed b.negative (if up b.negative whole rest unit then whole + 1 else whole)

def ceil : Float → Float :=
  toWhole fun negative _ rest _ => !negative && 0 < rest

/--
The nearest whole number, halves going away from zero.
-/
def round : Float → Float :=
  toWhole fun _ _ rest unit => unit ≤ 2 * rest

/--
The position of a value when all of them are put in a line: by magnitude on either side of zero,
negative zero before positive zero, infinite values outside the finite ones, and the undefined one
before all others.

The line goes by the sign bit. Arithmetic on x86-64 gives an undefined result a set sign bit, so
such a result comes first. The sign is not specified, and on processors that leave it unset an
undefined result would come last. The order of the samples over a domain without an upper end rests
on this.
-/
def rank (x : Float) : Int :=
  if x.isNaN then
    -(Nat.pow 2 63 : Int)
  else
    let bits := x.toBits.toNat
    if bits < Nat.pow 2 63 then bits else (Nat.pow 2 63 : Int) - 1 - bits

end Binary

end Tariff.Decimal
