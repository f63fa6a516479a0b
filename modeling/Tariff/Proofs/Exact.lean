import Mathlib.Data.Rat.Floor
import Tariff.Proofs.Amount
import Tariff.Table.Basic

/-!
This module contains the exact reading of the arithmetic: prices as rational numbers, without
rounding, infinite values or an undefined one.
-/

namespace Tariff

/--
Exact numbers. There is none above or below all others, so `top` and `bottom` are arbitrary. They
stand only for the least and the greatest of no values, which a lookup never asks for.
-/
instance : Amount ℚ where
  decLt := inferInstance
  decLe := inferInstance
  ofNat n := n
  ofDecimal digits exponent := digits * 10 ^ exponent
  top := 0
  bottom := 0
  isNaN _ := false
  isFinite _ := true
  ceil x := ⌈x⌉
  round x := if 0 ≤ x then ⌊x + 1 / 2⌋ else ⌈x - 1 / 2⌉
  sortLe a b := a ≤ b

namespace Amount

instance : LawfulAmount ℚ where
  defined_of_le _ := ⟨rfl, rfl⟩
  le_total _ _ := Std.le_total
  le_trans hab hbc := hab.trans hbc
  lt_iff_le_not_ge := lt_iff_le_not_ge
  zero_defined := rfl

theorem lesser_eq_min (a b : ℚ) : lesser a b = min a b := by
  unfold lesser
  rcases lt_or_ge b a with h | h
  · simp [h, min_eq_right h.le]
  · simp [h.not_gt, min_eq_left h, isNaN]

theorem greater_eq_max (a b : ℚ) : greater a b = max a b := by
  unfold greater
  rcases lt_or_ge a b with h | h
  · simp [h, max_eq_right h.le]
  · simp [h.not_gt, max_eq_left h, isNaN]

theorem zero_eq_zero : (zero : ℚ) = 0 :=
  Nat.cast_zero

theorem eq_of_samePlace {a b : ℚ} (h : SamePlace a b) : a = b :=
  le_antisymm h.1 h.2

end Amount

/--
A table in exact numbers to show results on: three thresholds, the first of them below zero, each
with its fee and its overage.
-/
def RateTable.plans : RateTable ℚ where
  columns := [
    { name := "Up to", key := "upto", kind := .threshold },
    { name := "Fee", key := "fee", kind := .fee },
    { name := "Overage", key := "overage", kind := .rate },
    .scripted "Capped" "capped" (.threePartCurve "upto" "fee" "overage"),
    .scripted "Stepped" "stepped" (.graduated "upto" "overage")]
  rows := [
    Row.insert ∅ "upto" (.number (-5)) |>.insert "fee" (.number 100)
      |>.insert "overage" (.number 4),
    Row.insert ∅ "upto" (.number 10) |>.insert "fee" (.number 150)
      |>.insert "overage" (.number 2),
    Row.insert ∅ "upto" (.number 20) |>.insert "fee" (.number 180)
      |>.insert "overage" (.number 1)]

end Tariff
