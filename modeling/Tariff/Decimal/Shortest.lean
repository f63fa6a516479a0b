import Tariff.Decimal.Binary

/-!
This module contains the shortest decimal that reads back as a given binary number: of all decimals
in the interval of reals that round to the number, one with the fewest digits, and of those the
nearest. Everything is computed on whole numbers.
-/

namespace Tariff.Decimal

/--
What happens when two decimals with the fewest digits are equally near.
-/
inductive Tie where
  | up
  | even
deriving Repr, DecidableEq

/--
The decimal `value * 10 ^ exponent`.
-/
structure Digits where
  value : Nat
  exponent : Int
deriving Repr, DecidableEq

namespace Digits

def text (d : Digits) : List Char :=
  Nat.toDigits 10 d.value

/--
The power of ten of the first digit.
-/
def leading (d : Digits) : Int :=
  d.exponent + d.text.length - 1

end Digits

namespace Shortest

/--
The reals that round to a number, as fractions with a common denominator. The ends belong to the
interval if `closed` holds.
-/
structure Interval where
  low : Nat
  value : Nat
  high : Nat
  denominator : Nat
  closed : Bool

/--
The interval of reals that round to a positive number. Below a power of two the neighbours are twice
as close as above it.
-/
def interval (b : Binary) : Interval :=
  let m := b.significand
  let below := if m == Nat.pow 2 52 && b.exponent > -1074 then 1 else 2
  let e := b.exponent - 2
  let num := Nat.pow 2 e.toNat
  { low := (4 * m - below) * num
    value := 4 * m * num
    high := (4 * m + 2) * num
    denominator := Nat.pow 2 (-e).toNat
    closed := m % 2 == 0 }

/--
Count all values in units of `10 ^ e` instead of one.
-/
def Interval.inUnits (i : Interval) (e : Int) : Interval :=
  let scale := Nat.pow 10 (-e).toNat
  { i with
    low := i.low * scale
    value := i.value * scale
    high := i.high * scale
    denominator := i.denominator * Nat.pow 10 e.toNat }

def Interval.holds (i : Interval) (n : Nat) : Bool :=
  let x := n * i.denominator
  if i.closed then i.low ≤ x && x ≤ i.high else i.low < x && x < i.high

def Interval.leading (i : Interval) : Int :=
  if i.denominator ≤ i.value then
    (Nat.toDigits 10 (i.value / i.denominator)).length - 1
  else
    let inverse := i.denominator / i.value
    let length := (Nat.toDigits 10 inverse).length
    if i.denominator ≤ i.value * Nat.pow 10 (length - 1) then -(length - 1 : Nat) else -length

/--
The whole number in the interval that is nearest to its number, if there is one: only the two
neighbours of the number can be.
-/
def Interval.nearest? (i : Interval) (tie : Tie) : Option Nat :=
  let floor := i.value / i.denominator
  let rest := i.value % i.denominator
  if rest == 0 then
    some floor
  else
    let upward : Bool :=
      if 2 * rest == i.denominator then
        match tie with
        | .up => true
        | .even => floor % 2 == 1
      else
        decide (i.denominator < 2 * rest)
    match i.holds floor, i.holds (floor + 1) with
    | true, true => some (if upward then floor + 1 else floor)
    | true, false => some floor
    | false, true => some (floor + 1)
    | false, false => none

/--
Drop the zeros at the end of a number's digits, of which there are at most `fuel`.
-/
def stripZeros : (fuel : Nat) → Digits → Digits
  | 0, d => d
  | fuel + 1, d =>
    if d.value % 10 == 0 then stripZeros fuel { value := d.value / 10, exponent := d.exponent + 1 }
    else d

/--
Look for a decimal in the interval with `count` digits, then with one digit more, and so on.
Seventeen digits are always enough.
-/
def search (i : Interval) (leading : Int) (tie : Tie) : (rounds count : Nat) → Digits
  | 0, _ => { value := 0, exponent := 0 }
  | rounds + 1, count =>
    let exponent := leading - count + 1
    match (i.inUnits exponent).nearest? tie with
    | some value => stripZeros count { value, exponent }
    | none => search i leading tie rounds (count + 1)

end Shortest

/--
The shortest decimal that reads back as the magnitude of a number.
-/
def shortest (tie : Tie) (b : Binary) : Digits :=
  if b.significand == 0 then
    { value := 0, exponent := 0 }
  else
    let i := Shortest.interval b
    Shortest.search i i.leading tie 17 1

end Tariff.Decimal
