import Tariff.Proofs.Binary64.Order

/-!
This module contains what becomes of a `Float` when it is rounded up to a whole number: it hardly
gets smaller and does not become infinite.
-/

namespace Tariff.Binary64

open Decimal (Binary)
open Float.Model Float.Model.UnpackedFloat

theorem ofFloat?_eq_some {x : Float} {b : Binary} (h : Binary.ofFloat? x = some b) :
    b.significand < 2 ^ 53 ∧
      ∀ a, value? x = some a →
        a = b.significand * 2 ^ b.exponent ∧ (b.negative = true → b.significand = 0) := by
  obtain ⟨sign, exponent, mantissa, hu, hexponent, hmantissa, hbits⟩ := exists_fields x
  have hfields : x.toBits.toNat % 2 ^ 52 = mantissa ∧
      x.toBits.toNat / 2 ^ 52 % 2 ^ 11 = exponent ∧
      x.toBits.toNat / 2 ^ 63 = sign.toBitVec.toNat := by
    have := sign.toBitVec.isLt
    omega
  unfold Binary.ofFloat? at h
  simp only [Nat.pow_eq, hfields, beq_iff_eq] at h
  rw [value?, hu, ofFields]
  split at h
  next => cases h
  next hfinite =>
    rw [if_neg hfinite]
    split at h
    next hleast =>
      cases h
      rw [if_pos hleast]
      refine ⟨by dsimp only; omega, ?_⟩
      intro a ha
      dsimp only
      split at ha
      next hzero =>
        cases ha
        simp [hzero]
      next =>
        cases sign with
        | negative => cases ha
        | positive =>
          cases ha
          exact ⟨rfl, fun hsign => (Bool.false_ne_true hsign).elim⟩
    next hleast =>
      cases h
      rw [if_neg hleast]
      refine ⟨by dsimp only; omega, ?_⟩
      intro a ha
      cases sign with
      | negative => cases ha
      | positive =>
        cases ha
        exact ⟨rfl, fun hsign => (Bool.false_ne_true hsign).elim⟩

theorem exists_ofFloat? {x : Float} {a : ℚ} (h : value? x = some a) :
    ∃ b, Binary.ofFloat? x = some b := by
  obtain ⟨sign, exponent, mantissa, hu, hexponent, hmantissa, hbits⟩ := exists_fields x
  have hfield : x.toBits.toNat / 2 ^ 52 % 2 ^ 11 = exponent := by
    have := sign.toBitVec.isLt
    omega
  have hfinite : exponent ≠ 2047 := by
    rintro rfl
    rw [value?, hu, ofFields, if_pos rfl] at h
    split at h <;> cases h
  unfold Binary.ofFloat?
  simp only [Nat.pow_eq, hfield, beq_iff_eq, hfinite, ↓reduceIte]
  split
  · exact ⟨_, rfl⟩
  · exact ⟨_, rfl⟩

theorem ceil_of_isInfinite {x : Float} (h : IsInfinite x) : Binary.ceil x = x := by
  obtain ⟨sign, exponent, mantissa, hu, hexponent, hmantissa, hbits⟩ := exists_fields x
  have hfield : x.toBits.toNat / 2 ^ 52 % 2 ^ 11 = exponent := by
    have := sign.toBitVec.isLt
    omega
  have hinfinite : exponent = 2047 := by
    by_contra hne
    have hfields := hu.symm.trans h
    rw [ofFields, if_neg hne] at hfields
    split_ifs at hfields
  have hnone : Binary.ofFloat? x = none := by
    unfold Binary.ofFloat?
    simp only [Nat.pow_eq, hfield, hinfinite, beq_self_eq_true, ↓reduceIte]
  rw [Binary.ceil, Binary.toWhole, hnone]

theorem not_isInfinite_signed {negative : Bool} {n : Nat} (hn : n < 2 ^ 53) :
    ¬IsInfinite (Binary.signed negative n) := by
  intro hinfinite
  obtain ⟨z, hz, _⟩ := value?_ofNat hn
  cases negative with
  | false =>
    have hnone : value? (Binary.signed false n) = none := by
      rw [value?, hinfinite]
      rfl
    cases hz.symm.trans hnone
  | true =>
    change UnpackedFloat.unpack .binary64 (UnpackedFloat.pack .binary64 (UnpackedFloat.neg
      (Float.ofScientific n false 0).toModel.unpack)) = _ at hinfinite
    obtain ⟨sign, hu, _⟩ | ⟨m, e, hpos, hu, _⟩ := magnitude?_cases hz
    · rw [hu] at hinfinite
      cases unpack_packedZero.symm.trans hinfinite
    · rw [hu] at hinfinite
      exact unpack_pack_negative_ne hpos hinfinite

theorem two_le_unit {exponent : Int} (h : ¬exponent ≥ 0) : 2 ≤ Nat.pow 2 exponent.natAbs :=
  Nat.pow_le_pow_right (n := 2) (by decide) (show 1 ≤ exponent.natAbs by omega)

theorem whole_add_one_lt {significand unit : Nat} (hs : significand < 2 ^ 53) (hu : 2 ≤ unit) :
    significand / unit + 1 < 2 ^ 53 := by
  have : significand / unit ≤ significand / 2 := Nat.div_le_div_left hu (by decide)
  omega

theorem roundedUp_bounds {significand unit n : Nat} {a : ℚ} (hs : significand < 2 ^ 53)
    (hu : 2 ≤ unit) (ha : a * unit = significand)
    (hn : n = if 0 < significand % unit then significand / unit + 1 else significand / unit) :
    n < 2 ^ 53 ∧ a ≤ n := by
  have hlt := whole_add_one_lt hs hu
  have hle : significand ≤ n * unit := by
    have hdivision := Nat.div_add_mod significand unit
    have hmod := Nat.mod_lt significand (show 0 < unit by omega)
    rw [Nat.mul_comm] at hdivision
    rw [hn]
    split
    · rw [Nat.add_mul]
      omega
    · omega
  constructor
  · rw [hn]
    split <;> omega
  · have hpos : (0 : ℚ) < unit := by exact_mod_cast Nat.lt_of_lt_of_le Nat.zero_lt_two hu
    refine le_of_mul_le_mul_right ?_ hpos
    rw [ha]
    exact_mod_cast hle

theorem not_isInfinite_ceil {x : Float} (h : ¬IsInfinite x) : ¬IsInfinite (Binary.ceil x) := by
  unfold Binary.ceil Binary.toWhole
  split
  next => exact h
  next b hb =>
    obtain ⟨hs, _⟩ := ofFloat?_eq_some hb
    split
    next => exact h
    next hexponent =>
      have := whole_add_one_lt hs (two_le_unit hexponent)
      apply not_isInfinite_signed
      split
      · exact this
      · omega

/--
Rounding up makes a number smaller only by the error of the whole number.
-/
theorem value?_ceil {x : Float} {a : ℚ} (h : value? x = some a) :
    ∃ c, value? (Binary.ceil x) = some c ∧ a - a / 2 ^ 50 ≤ c := by
  have hnonneg := value?_nonneg h
  obtain ⟨b, hb⟩ := exists_ofFloat? h
  obtain ⟨hs, hvalue⟩ := ofFloat?_eq_some hb
  obtain ⟨ha, hzero⟩ := hvalue a h
  unfold Binary.ceil Binary.toWhole
  rw [hb]
  dsimp only
  split
  next =>
    have : 0 ≤ a / 2 ^ 50 := by positivity
    exact ⟨a, h, by linarith⟩
  next hexponent =>
    have hunit := two_le_unit hexponent
    have hexact : a * (Nat.pow 2 b.exponent.natAbs : Nat) = b.significand := by
      have hpower : ((Nat.pow 2 b.exponent.natAbs : Nat) : ℚ) = 2 ^ (-b.exponent) := by
        rw [Nat.pow_eq, Nat.cast_pow, ← zpow_natCast]
        congr 1
        omega
      rw [ha, hpower, mul_assoc, ← zpow_add₀ (by norm_num), add_neg_cancel, zpow_zero, mul_one]
    cases hnegative : b.negative with
    | true =>
      -- The value is not negative, so this is the zero with a minus sign.
      have hs0 := hzero hnegative
      rw [hs0, Nat.cast_zero, zero_mul] at ha
      rw [hs0, ha]
      refine ⟨0, ?_, by norm_num⟩
      simp only [Bool.not_true, Bool.false_and, Bool.false_eq_true, ↓reduceIte, Nat.zero_div]
      rfl
    | false =>
      simp only [Bool.not_false, Bool.true_and, decide_eq_true_eq]
      generalize hn : (if 0 < b.significand % Nat.pow 2 b.exponent.natAbs then _ else _) = n
      obtain ⟨hlt, hle⟩ := roundedUp_bounds hs hunit hexact hn.symm
      obtain ⟨z, hz, herror⟩ := value?_ofNat hlt
      have := (abs_le.1 herror).1
      exact ⟨z, hz, by linarith⟩

end Tariff.Binary64
