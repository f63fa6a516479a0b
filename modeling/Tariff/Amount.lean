import Tariff.Decimal.Binary

/-!
This module contains the number system that prices are computed in. Everything that calculates is
written against the class `Amount`, so that the same definitions run on `Float` and can be read over
an exact number system.
-/

namespace Tariff

/--
Numbers that quantities, rates and prices are made of. Comparison need not be total: a value for
which `isNaN` holds compares with nothing, not even with itself.
-/
class Amount (α : Type) extends Add α, Sub α, Mul α, Div α, Neg α, LT α, LE α, BEq α where
  decLt : ∀ a b : α, Decidable (a < b)
  decLe : ∀ a b : α, Decidable (a ≤ b)
  ofNat : Nat → α
  /-- The nearest value to `digits * 10 ^ exponent`. -/
  ofDecimal : (digits : Nat) → (exponent : Int) → α
  top : α
  bottom : α
  isNaN : α → Bool
  isFinite : α → Bool
  ceil : α → α
  /-- The nearest whole number, halves going away from zero. -/
  round : α → α
  /-- A total order for sorting, which agrees with `≤` where that decides. -/
  sortLe : α → α → Bool

namespace Amount

variable {α : Type} [Amount α]

instance (a b : α) : Decidable (a < b) := Amount.decLt a b

instance (a b : α) : Decidable (a ≤ b) := Amount.decLe a b

def zero : α := ofNat 0

def one : α := ofNat 1

/--
The smaller of two values. An undefined value never wins against a defined one.
-/
def lesser (a b : α) : α :=
  if isNaN a || b < a then b else a

/--
The larger of two values. An undefined value never wins against a defined one.
-/
def greater (a b : α) : α :=
  if isNaN a || a < b then b else a

/--
The least of the defined values in a list, and `top` if there is none.
-/
def least (xs : List α) : α :=
  match xs.filter (!isNaN ·) with
  | [] => top
  | x :: xs => xs.foldl lesser x

/--
The greatest of the defined values in a list, and `bottom` if there is none.
-/
def greatest (xs : List α) : α :=
  match xs.filter (!isNaN ·) with
  | [] => bottom
  | x :: xs => xs.foldl greater x

/--
The sum of a list from left to right. It starts from the neutral element of addition, which is
negative zero where zero has a sign.
-/
def sum (xs : List α) : α :=
  xs.foldl (· + ·) (-zero)

/--
Round to a number of decimal places, halves going away from zero.
-/
def roundTo (x : α) (places : Nat) : α :=
  let unit := ofNat (Nat.pow 10 places)
  round (x * unit) / unit

end Amount

instance : Amount Float where
  decLt := Float.decLt
  decLe := Float.decLe
  ofNat n := Float.ofScientific n false 0
  ofDecimal digits exponent := Float.ofScientific digits (exponent < 0) exponent.natAbs
  top := 1.0 / 0.0
  bottom := -(1.0 / 0.0)
  isNaN := Float.isNaN
  isFinite := Float.isFinite
  ceil := Decimal.Binary.ceil
  round := Decimal.Binary.round
  sortLe a b := Decimal.Binary.rank a ≤ Decimal.Binary.rank b

end Tariff
