import Mathlib.Algebra.Order.Field.Power
import Mathlib.Data.Rat.Cast.Order
import Mathlib.Tactic.FieldSimp
import Mathlib.Tactic.Linarith
import Mathlib.Tactic.Positivity
import Mathlib.Tactic.Ring

/-!
This module contains how far rounding to 53 bits is from the exact value: less than half a unit in
the last place. Only the magnitude of numbers matters here, which is why values are not negative.
-/

namespace Tariff.Binary64

open Float.Model Float.Model.UnpackedFloat

/--
A mantissa with its two residual bits tells an exact value apart from those that round differently.
-/
def Marks (em : ExtendedMantissa) (x : ℚ) : Prop :=
  match em.roundBit, em.stickyBit with
  | false, false => x = em.mantissa
  | false, true => em.mantissa < x ∧ x < em.mantissa + 1 / 2
  | true, false => x = em.mantissa + 1 / 2
  | true, true => em.mantissa + 1 / 2 < x ∧ x < em.mantissa + 1

namespace Marks

variable {em : ExtendedMantissa} {x : ℚ}

theorem exact (m : Nat) : Marks (.ofMantissaAndAccuracy m .exact) m := by
  rfl

theorem mantissa_le (h : Marks em x) : (em.mantissa : ℚ) ≤ x := by
  obtain ⟨m, _ | _, _ | _⟩ := em <;> simp only [Marks] at h <;> linarith

theorem shiftRightOne (h : Marks em x) : Marks em.shiftRightOne (x / 2) := by
  obtain ⟨m, round, sticky⟩ := em
  have hm : (m : ℚ) = 2 * (m / 2 : Nat) + (m % 2 : Nat) := by
    exact_mod_cast (Nat.div_add_mod m 2).symm
  unfold ExtendedMantissa.shiftRightOne
  rcases Nat.mod_two_eq_zero_or_one m with hmod | hmod
  all_goals
    rw [hmod] at hm ⊢
    cases round <;> cases sticky <;> simp [Marks] at h ⊢
    all_goals push_cast at hm
  all_goals first | constructor <;> linarith | linarith

theorem shiftRight (h : Marks em x) (count : Nat) : Marks (em >>> count) (x / 2 ^ count) := by
  change Marks (count.repeat ExtendedMantissa.shiftRightOne em) _
  induction count with
  | zero => simpa [Nat.repeat] using h
  | succ count ih =>
    rw [Nat.repeat, pow_succ, ← div_div]
    exact ih.shiftRightOne

theorem abs_rounded_sub_le (h : Marks em x) : |(em.roundedMantissa : ℚ) - x| ≤ 1 / 2 := by
  obtain ⟨m, _ | _, _ | _⟩ := em
  all_goals
    simp only [Marks] at h
    simp only [ExtendedMantissa.roundedMantissa, ExtendedMantissa.accuracy,
      Accuracy.roundToNearestEven]
    rw [abs_le]
  · constructor <;> linarith
  · constructor <;> linarith
  · rcases Nat.mod_two_eq_zero_or_one m with hmod | hmod
    all_goals
      rw [hmod]
      push_cast
      constructor <;> linarith
  · push_cast
    constructor <;> linarith

end Marks

theorem mantissa_shiftRight (em : ExtendedMantissa) (count : Nat) :
    (em >>> count).mantissa = em.mantissa / 2 ^ count := by
  change (count.repeat ExtendedMantissa.shiftRightOne em).mantissa = _
  induction count with
  | zero => simp [Nat.repeat]
  | succ count ih =>
    rw [Nat.repeat, ExtendedMantissa.shiftRightOne, ih, pow_succ, Nat.div_div_eq_div_mul]

theorem mantissa_le_rounded (em : ExtendedMantissa) :
    em.mantissa ≤ em.roundedMantissa ∧ em.roundedMantissa ≤ em.mantissa + 1 := by
  obtain ⟨m, _ | _, _ | _⟩ := em
  all_goals
    simp only [ExtendedMantissa.roundedMantissa, ExtendedMantissa.accuracy,
      Accuracy.roundToNearestEven]
    omega

/--
The exponent for a number whose first digit has a place. Numbers have 53 digits, and less if the
place is so low that the exponent cannot go along.
-/
theorem targetExponent_eq (place : Int) :
    Format.binary64.targetExponent place = max (place - 53) (-1074) := by
  rfl

/--
The mantissa and the exponent of a number that is not zero. They are determined by the number.
-/
structure Canonical (m : Nat) (e : Int) : Prop where
  pos : 0 < m
  lt : m < 2 ^ 53
  least_le : -1074 ≤ e
  full : 2 ^ 52 ≤ m ∨ e = -1074

def magnitude? : UnpackedFloat → Option ℚ
  | .zero _ => some 0
  | .finite .positive m e _ => some (m * 2 ^ e)
  | _ => none

def IsCanonical : UnpackedFloat → Prop
  | .finite _ m e _ => Canonical m e
  | _ => True

/--
A number is what an exact value that is not negative rounds to.
-/
def Rounds (u : UnpackedFloat) (x : ℚ) : Prop :=
  IsCanonical u ∧ ∃ z, magnitude? u = some z ∧ |z - x| ≤ x / 2 ^ 53 + 2 ^ (-1075 : Int)

theorem shiftToTargetExponent_eq {m : Nat} {e : Int} {accuracy : Accuracy} {target : Int}
    (htarget : Format.binary64.targetExponent (totalExponent m e) = target) (he : e ≤ target) :
    shiftToTargetExponent .binary64 m e accuracy =
      (ExtendedMantissa.ofMantissaAndAccuracy m accuracy >>> (target - e).toNat, target) := by
  rw [shiftToTargetExponent, htarget, shiftToExponent, Int.toNat_of_nonneg (by omega)]
  congr 1
  omega

@[simp]
theorem mantissa_ofMantissaAndAccuracy (m : Nat) (accuracy : Accuracy) :
    (ExtendedMantissa.ofMantissaAndAccuracy m accuracy).mantissa = m := by
  rcases accuracy with _ | ⟨_ | _ | _⟩ <;> rfl

/--
At the target exponent the mantissa has the right number of digits.
-/
theorem div_two_pow_full {m : Nat} {e target : Int} (hm : m ≠ 0 ∨ target = -1074)
    (htarget : Format.binary64.targetExponent (totalExponent m e) = target) (he : e ≤ target) :
    m / 2 ^ (target - e).toNat < 2 ^ 53 ∧
      (2 ^ 52 ≤ m / 2 ^ (target - e).toNat ∨ target = -1074) := by
  rw [targetExponent_eq, totalExponent] at htarget
  have hlt : m < 2 ^ (m.log2 + 1) := Nat.lt_log2_self
  constructor
  · rw [Nat.div_lt_iff_lt_mul (by positivity), ← Nat.pow_add]
    exact Nat.lt_of_lt_of_le hlt (Nat.pow_le_pow_right (by decide) (by omega))
  · by_cases hleast : target = -1074
    · exact .inr hleast
    · have hle : 2 ^ m.log2 ≤ m := Nat.log2_self_le (hm.resolve_right hleast)
      refine .inl ?_
      rw [Nat.le_div_iff_mul_le (by positivity), ← Nat.pow_add]
      exact Nat.le_trans (Nat.pow_le_pow_right (by decide) (by omega)) hle

/--
Rounding up can give one digit too many. It is a zero, and dropping it changes no value.
-/
theorem shift_rounded {r : Nat} {e : Int} (hr : r ≤ 2 ^ 53) (he : -1074 ≤ e)
    (hfull : 2 ^ 52 ≤ r ∨ e = -1074) :
    ∃ em e', shiftToTargetExponent .binary64 r e .exact = (em, e') ∧
      (em.mantissa * 2 ^ e' : ℚ) = r * 2 ^ e ∧ (em.mantissa ≠ 0 → Canonical em.mantissa e') := by
  by_cases hcarry : r = 2 ^ 53
  · subst hcarry
    have htarget : Format.binary64.targetExponent (totalExponent (2 ^ 53) e) = e + 1 := by
      rw [targetExponent_eq, totalExponent, Nat.log2_two_pow]
      omega
    refine ⟨_, _, shiftToTargetExponent_eq htarget (by omega), ?_, ?_⟩
    all_goals
      rw [mantissa_shiftRight, mantissa_ofMantissaAndAccuracy,
        show (e + 1 - e).toNat = 1 by omega]
    · rw [zpow_add_one₀ (by norm_num)]
      norm_num
      ring
    · intro _
      exact ⟨by norm_num, by norm_num, by omega, .inl (by norm_num)⟩
  · have hlt : r < 2 ^ 53 := by omega
    have hlog : r.log2 < 53 := by
      by_cases hzero : r = 0
      · rw [hzero]
        decide
      · exact (Nat.log2_lt hzero).2 hlt
    have htarget : Format.binary64.targetExponent (totalExponent r e) = e := by
      rw [targetExponent_eq, totalExponent]
      rcases hfull with hfull | rfl
      · have := (Nat.le_log2 (by omega)).2 hfull
        omega
      · omega
    refine ⟨_, _, shiftToTargetExponent_eq htarget (Int.le_refl e), ?_, ?_⟩
    all_goals
      rw [mantissa_shiftRight, mantissa_ofMantissaAndAccuracy, Int.sub_self, Int.toNat_zero,
        Nat.pow_zero, Nat.div_one]
    intro hzero
    exact ⟨Nat.pos_of_ne_zero hzero, hlt, he, hfull⟩

theorem half_unit_le {mantissa : Nat} {target : Int} {x : ℚ} (hx : mantissa ≤ x / 2 ^ target)
    (hfull : 2 ^ 52 ≤ mantissa ∨ target = -1074) :
    (2 ^ target : ℚ) / 2 ≤ x / 2 ^ 53 + 2 ^ (-1075 : Int) := by
  have hpos : (0 : ℚ) < 2 ^ target := by positivity
  rw [le_div_iff₀ hpos] at hx
  rcases hfull with hfull | rfl
  · have hfull : (2 ^ 52 : ℚ) ≤ mantissa := by exact_mod_cast hfull
    have hx' : 2 ^ 52 * (2 ^ target : ℚ) ≤ x :=
      (mul_le_mul_of_nonneg_right hfull hpos.le).trans hx
    have hleast : (0 : ℚ) ≤ 2 ^ (-1075 : Int) := by positivity
    linarith
  · have hnonneg : (0 : ℚ) ≤ x := le_trans (by positivity) hx
    have hhalf : (2 ^ (-1074 : Int) : ℚ) / 2 = 2 ^ (-1075 : Int) := by
      rw [show (-1075 : Int) = -1074 - 1 by rfl, zpow_sub_one₀ (by norm_num), div_eq_mul_inv]
    have : 0 ≤ x / 2 ^ 53 := by positivity
    linarith

/--
The error of rounding is at most half a unit in the last place.
-/
theorem rounds_roundWithAccuracy {m : Nat} {e : Int} {accuracy : Accuracy} {x : ℚ}
    (hx : Marks (.ofMantissaAndAccuracy m accuracy) (x / 2 ^ e))
    (he : e ≤ Format.binary64.targetExponent (totalExponent m e)) :
    Rounds (roundWithAccuracy .binary64 .positive m e accuracy) x := by
  generalize htarget : Format.binary64.targetExponent (totalExponent m e) = target at he
  have hleast : -1074 ≤ target := by
    rw [← htarget, targetExponent_eq]
    omega
  have hm : m ≠ 0 ∨ target = -1074 := by
    by_cases hzero : m = 0
    · rw [hzero, targetExponent_eq, totalExponent, Nat.log2_zero] at htarget
      omega
    · exact .inl hzero
  obtain ⟨hlt, hfull⟩ := div_two_pow_full hm htarget he
  have hmarks := hx.shiftRight (target - e).toNat
  have hscale : (2 ^ e : ℚ) * 2 ^ (target - e).toNat = 2 ^ target := by
    rw [← zpow_natCast, Int.toNat_of_nonneg (by omega), ← zpow_add₀ (by norm_num)]
    congr 1
    omega
  rw [div_div, hscale] at hmarks
  have hshifted : (ExtendedMantissa.ofMantissaAndAccuracy m accuracy >>>
      (target - e).toNat).mantissa = m / 2 ^ (target - e).toNat := by
    rw [mantissa_shiftRight, mantissa_ofMantissaAndAccuracy]
  unfold roundWithAccuracy
  rw [shiftToTargetExponent_eq htarget he]
  generalize ExtendedMantissa.ofMantissaAndAccuracy m accuracy >>> (target - e).toNat = em at *
  rw [← hshifted] at hlt hfull
  obtain ⟨hle, hle'⟩ := mantissa_le_rounded em
  obtain ⟨em', e', hshift, hvalue, hcanonical⟩ :=
    shift_rounded (r := em.roundedMantissa) (by omega) hleast (by omega)
  have herror : |(em.roundedMantissa * 2 ^ target : ℚ) - x| ≤ x / 2 ^ 53 + 2 ^ (-1075 : Int) := by
    have hpos : (0 : ℚ) < 2 ^ target := by positivity
    calc |(em.roundedMantissa * 2 ^ target : ℚ) - x|
        = |(em.roundedMantissa : ℚ) - x / 2 ^ target| * 2 ^ target := by
          rw [← abs_of_pos hpos, ← abs_mul, abs_of_pos hpos, sub_mul, div_mul_cancel₀ _ hpos.ne']
      _ ≤ 1 / 2 * 2 ^ target := mul_le_mul_of_nonneg_right hmarks.abs_rounded_sub_le hpos.le
      _ = 2 ^ target / 2 := by ring
      _ ≤ x / 2 ^ 53 + 2 ^ (-1075 : Int) := half_unit_le hmarks.mantissa_le hfull
  dsimp only
  rw [hshift]
  dsimp only
  rw [← hvalue] at herror
  by_cases hzero : em'.mantissa = 0
  · rw [dif_pos hzero]
    rw [hzero, Nat.cast_zero, zero_mul] at herror
    exact ⟨trivial, 0, rfl, herror⟩
  · rw [dif_neg hzero]
    exact ⟨hcanonical hzero, _, rfl, herror⟩

theorem log2_mul_two_pow {m : Nat} (hm : m ≠ 0) (count : Nat) :
    (m * 2 ^ count).log2 = m.log2 + count := by
  induction count with
  | zero => simp
  | succ count ih =>
    have hne : m * 2 ^ count ≠ 0 := by positivity
    rw [Nat.pow_succ, ← Nat.mul_assoc, Nat.mul_comm _ 2, Nat.log2_two_mul hne, ih]
    omega

theorem rounds_round {m : Nat} {e : Int} (hm : m ≠ 0) :
    Rounds (round .binary64 .positive m e) (m * 2 ^ e) := by
  unfold UnpackedFloat.round decreaseExponent
  generalize htarget : Format.binary64.targetExponent (totalExponent m e) = target
  dsimp only
  generalize hcount : (e - target).toNat = count
  rw [Nat.shiftLeft_eq]
  apply rounds_roundWithAccuracy
  · have hscale : (m * 2 ^ e : ℚ) / 2 ^ (e - count) = (m * 2 ^ count : Nat) := by
      rw [zpow_sub₀ (by norm_num), zpow_natCast]
      push_cast
      field_simp
    rw [hscale]
    exact .exact _
  · have htotal : totalExponent (m * 2 ^ count) (e - count) = totalExponent m e := by
      rw [totalExponent, totalExponent, log2_mul_two_pow hm]
      push_cast
      ring
    rw [htotal, htarget]
    omega

end Tariff.Binary64
