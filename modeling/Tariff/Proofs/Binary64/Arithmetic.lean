import Tariff.Proofs.Binary64.Packing

/-!
This module contains how far sums, products and quotients of `Float` numbers are from the exact
ones. The operands are not negative. A result that is too large is infinite.
-/

namespace Tariff.Binary64

open Float.Model Float.Model.UnpackedFloat

section Unpacked

variable {u w : UnpackedFloat} {a b : ℚ}

theorem magnitude?_cases (h : magnitude? u = some a) :
    (∃ sign, u = .zero sign ∧ a = 0) ∨
      ∃ m e hpos, u = .finite .positive m e hpos ∧ a = m * 2 ^ e := by
  rcases u with _ | _ | sign | ⟨_ | _, m, e, hpos⟩
  · cases h
  · cases h
  · cases h
    exact .inl ⟨sign, rfl, rfl⟩
  · cases h
  · cases h
    exact .inr ⟨m, e, hpos, rfl, rfl⟩

theorem magnitude?_nonneg (h : magnitude? u = some a) : 0 ≤ a := by
  obtain ⟨_, _, rfl⟩ | ⟨m, e, _, _, rfl⟩ := magnitude?_cases h
  · rfl
  · positivity

theorem rounds_self (hu : IsCanonical u) (h : magnitude? u = some a) : Rounds u a := by
  have hnonneg := magnitude?_nonneg h
  refine ⟨hu, a, h, ?_⟩
  rw [sub_self, abs_zero]
  positivity

theorem decreaseExponent_value {m : Nat} {e target : Int} (h : target ≤ e) :
    ((decreaseExponent m e target).1 : ℚ) * 2 ^ target = m * 2 ^ e := by
  rw [decreaseExponent, Nat.shiftLeft_eq]
  push_cast
  rw [mul_assoc, ← zpow_natCast, Int.toNat_of_nonneg (by omega), ← zpow_add₀ (by norm_num)]
  congr 2
  omega

theorem normalize_natCast {m : Nat} (hm : m ≠ 0) (e : Int) (sign : Sign) :
    normalize .binary64 (m : Int) e sign = round .binary64 .positive m e := by
  rw [UnpackedFloat.normalize, Int.compare_eq_gt.2 (by omega)]
  rfl

theorem rounds_add (hu : IsCanonical u) (hw : IsCanonical w) (ha : magnitude? u = some a)
    (hb : magnitude? w = some b) : Rounds (UnpackedFloat.add .binary64 u w) (a + b) := by
  obtain ⟨s₁, rfl, rfl⟩ | ⟨m₁, e₁, hm₁, rfl, rfl⟩ := magnitude?_cases ha
  all_goals obtain ⟨s₂, rfl, rfl⟩ | ⟨m₂, e₂, hm₂, rfl, rfl⟩ := magnitude?_cases hb
  · rw [add_zero]
    cases s₁ <;> cases s₂ <;> exact rounds_self trivial rfl
  · rw [zero_add]
    exact rounds_self hw hb
  · rw [add_zero]
    exact rounds_self hu ha
  · unfold UnpackedFloat.add
    dsimp only [Sign.apply]
    rw [← decreaseExponent_value (Int.min_le_left e₁ e₂),
      ← decreaseExponent_value (Int.min_le_right e₁ e₂), ← add_mul, ← Nat.cast_add, ← Nat.cast_add]
    have hne : (decreaseExponent m₁ e₁ (min e₁ e₂)).1 +
        (decreaseExponent m₂ e₂ (min e₁ e₂)).1 ≠ 0 := by
      rw [decreaseExponent, Nat.shiftLeft_eq]
      positivity
    rw [normalize_natCast hne]
    exact rounds_round hne

theorem rounds_mul (hu : IsCanonical u) (hw : IsCanonical w) (ha : magnitude? u = some a)
    (hb : magnitude? w = some b) : Rounds (UnpackedFloat.mul .binary64 u w) (a * b) := by
  obtain ⟨s₁, rfl, rfl⟩ | ⟨m₁, e₁, hm₁, rfl, rfl⟩ := magnitude?_cases ha
  all_goals obtain ⟨s₂, rfl, rfl⟩ | ⟨m₂, e₂, hm₂, rfl, rfl⟩ := magnitude?_cases hb
  · rw [mul_zero]
    exact rounds_self trivial rfl
  · rw [zero_mul]
    exact rounds_self trivial rfl
  · rw [mul_zero]
    exact rounds_self trivial rfl
  · apply rounds_roundWithAccuracy
    · have hscale : (m₁ * 2 ^ e₁ * (m₂ * 2 ^ e₂) : ℚ) / 2 ^ (e₁ + e₂) = (m₁ * m₂ : Nat) := by
        rw [zpow_add₀ (by norm_num)]
        push_cast
        field_simp
      rw [hscale]
      exact .exact _
    · -- One mantissa has all digits and so has the product, or both exponents are the least.
      rw [targetExponent_eq, totalExponent]
      by_cases hfull : 2 ^ 52 ≤ m₁ * m₂
      · have := (Nat.le_log2 (by positivity)).2 hfull
        omega
      · have h₁ := hu.full.resolve_left fun h => hfull (h.trans (Nat.le_mul_of_pos_right _ hm₂))
        have h₂ := hw.full.resolve_left fun h => hfull (h.trans (Nat.le_mul_of_pos_left _ hm₁))
        omega

theorem marks_fraction {numerator denominator : Nat} (h : 0 < denominator) :
    Marks (.ofMantissaAndAccuracy (numerator / denominator)
      (accuracyOfFraction (numerator % denominator) denominator))
      (numerator / denominator : ℚ) := by
  have hpos : (0 : ℚ) < denominator := by exact_mod_cast h
  have hdivision : (numerator : ℚ) =
      denominator * (numerator / denominator : Nat) + (numerator % denominator : Nat) := by
    exact_mod_cast (Nat.div_add_mod numerator denominator).symm
  have hlt : ((numerator % denominator : Nat) : ℚ) < denominator := by
    exact_mod_cast Nat.mod_lt numerator h
  rw [hdivision, add_div, mul_div_cancel_left₀ _ hpos.ne']
  generalize numerator / denominator = quotient
  generalize numerator % denominator = rest at *
  unfold accuracyOfFraction
  split
  next hzero =>
    rw [hzero, Nat.cast_zero, zero_div, add_zero]
    exact .exact _
  next hne =>
    have hrest : 0 < (rest / denominator : ℚ) := by
      have : 0 < rest := Nat.pos_of_ne_zero hne
      positivity
    have hone : (rest / denominator : ℚ) < 1 := by
      rwa [div_lt_one hpos]
    rcases hcompare : compare (2 * rest) denominator with _ | _ | _
    · have : (2 * rest : ℚ) < denominator := by exact_mod_cast Nat.compare_eq_lt.1 hcompare
      have : (rest / denominator : ℚ) < 1 / 2 := by
        rw [div_lt_div_iff₀ hpos (by norm_num)]
        linarith
      constructor <;> simp only [ExtendedMantissa.ofMantissaAndAccuracy] <;> linarith
    · have : (2 * rest : ℚ) = denominator := by exact_mod_cast Nat.compare_eq_eq.1 hcompare
      have : (rest / denominator : ℚ) = 1 / 2 := by
        rw [div_eq_div_iff hpos.ne' (by norm_num)]
        linarith
      simp only [Marks, ExtendedMantissa.ofMantissaAndAccuracy]
      linarith
    · have : (denominator : ℚ) < 2 * rest := by exact_mod_cast Nat.compare_eq_gt.1 hcompare
      have : 1 / 2 < (rest / denominator : ℚ) := by
        rw [div_lt_div_iff₀ (by norm_num) hpos]
        linarith
      constructor <;> simp only [ExtendedMantissa.ofMantissaAndAccuracy] <;> linarith

theorem targetExponent_quotient {m₁ m₂ : Nat} {e₁ e₂ target : Int} (hm₁ : m₁ ≠ 0) (hm₂ : 0 < m₂)
    (htarget : target = min (e₁ - e₂)
      (Format.binary64.targetExponent (totalExponent m₁ e₁ - totalExponent m₂ e₂))) :
    target ≤ Format.binary64.targetExponent
      (totalExponent (m₁ <<< (e₁ - e₂ - target).toNat / m₂) target) := by
  rw [targetExponent_eq, totalExponent, totalExponent] at htarget
  rw [targetExponent_eq, totalExponent]
  by_cases hleast : target ≤ -1074
  · omega
  · -- The dividend is shifted until it has 53 digits more than the divisor.
    have hfull : 2 ^ 52 ≤ m₁ <<< (e₁ - e₂ - target).toNat / m₂ := by
      have hlow : 2 ^ m₁.log2 ≤ m₁ := Nat.log2_self_le hm₁
      have hhigh : m₂ < 2 ^ (m₂.log2 + 1) := Nat.lt_log2_self
      rw [Nat.shiftLeft_eq, Nat.le_div_iff_mul_le hm₂]
      calc 2 ^ 52 * m₂ ≤ 2 ^ 52 * 2 ^ (m₂.log2 + 1) := Nat.mul_le_mul_left _ hhigh.le
        _ = 2 ^ (52 + (m₂.log2 + 1)) := (Nat.pow_add ..).symm
        _ ≤ 2 ^ (m₁.log2 + (e₁ - e₂ - target).toNat) :=
          Nat.pow_le_pow_right (by decide) (by omega)
        _ = 2 ^ m₁.log2 * 2 ^ (e₁ - e₂ - target).toNat := Nat.pow_add ..
        _ ≤ m₁ * 2 ^ (e₁ - e₂ - target).toNat := Nat.mul_le_mul_right _ hlow
    have := (Nat.le_log2 (by omega)).2 hfull
    omega

theorem rounds_div (ha : magnitude? u = some a) (hb : magnitude? w = some b) (hne : b ≠ 0) :
    Rounds (UnpackedFloat.div .binary64 u w) (a / b) := by
  obtain ⟨s₂, rfl, rfl⟩ | ⟨m₂, e₂, hm₂, rfl, rfl⟩ := magnitude?_cases hb
  · exact absurd rfl hne
  · obtain ⟨s₁, rfl, rfl⟩ | ⟨m₁, e₁, hm₁, rfl, rfl⟩ := magnitude?_cases ha
    · rw [zero_div]
      exact rounds_self trivial rfl
    · unfold UnpackedFloat.div divCore
      dsimp only
      generalize htarget : min (e₁ - e₂) (Format.binary64.targetExponent
        (totalExponent m₁ e₁ - totalExponent m₂ e₂)) = target
      apply rounds_roundWithAccuracy
      · have hscale : (m₁ * 2 ^ e₁ / (m₂ * 2 ^ e₂) : ℚ) / 2 ^ target =
            (m₁ <<< (e₁ - e₂ - target).toNat : Nat) / m₂ := by
          rw [Nat.shiftLeft_eq]
          push_cast
          rw [← zpow_natCast, Int.toNat_of_nonneg (by omega), zpow_sub₀ (by norm_num),
            zpow_sub₀ (by norm_num)]
          field_simp
        rw [hscale]
        exact marks_fraction hm₂
      · exact targetExponent_quotient hm₁.ne' hm₂ htarget.symm

end Unpacked

/--
The value of a `Float` that is not negative.
-/
def value? (x : Float) : Option ℚ :=
  magnitude? x.toModel.unpack

def IsInfinite (x : Float) : Prop :=
  x.toModel.unpack = .infinity .positive

/--
A `Float` is what an exact value rounds to, which is infinite if the value is too large.
-/
def Nearest (x : Float) (v : ℚ) : Prop :=
  (∃ z, value? x = some z ∧ |z - v| ≤ v / 2 ^ 53 + 2 ^ (-1075 : Int)) ∨
    IsInfinite x ∧ 3 * 2 ^ 1022 < v

section Packed

variable {u : UnpackedFloat} {x y : Float} {a b v : ℚ}

theorem unpack_add (x y : Float) : (x + y).toModel.unpack =
    UnpackedFloat.unpack .binary64 (UnpackedFloat.pack .binary64
      (UnpackedFloat.add .binary64 x.toModel.unpack y.toModel.unpack)) := by
  rfl

theorem unpack_mul (x y : Float) : (x * y).toModel.unpack =
    UnpackedFloat.unpack .binary64 (UnpackedFloat.pack .binary64
      (UnpackedFloat.mul .binary64 x.toModel.unpack y.toModel.unpack)) := by
  rfl

theorem unpack_div (x y : Float) : (x / y).toModel.unpack =
    UnpackedFloat.unpack .binary64 (UnpackedFloat.pack .binary64
      (UnpackedFloat.div .binary64 x.toModel.unpack y.toModel.unpack)) := by
  rfl

theorem value?_nonneg (h : value? x = some a) : 0 ≤ a :=
  magnitude?_nonneg h

theorem value?_lt (h : value? x = some a) : a < 2 ^ 1024 := by
  obtain ⟨sign, exponent, mantissa, hu, hexponent, hmantissa, _⟩ := exists_fields x
  obtain ⟨_, _, rfl⟩ | ⟨m, e, hpos, hfinite, rfl⟩ := magnitude?_cases h
  · positivity
  · have hm : (m : ℚ) < 2 ^ 53 := by
      have := isCanonical_unpack x
      rw [hfinite] at this
      exact_mod_cast this.lt
    have he : e ≤ 971 := by
      rw [hfinite, ofFields] at hu
      split_ifs at hu
      · cases hu
        decide
      · cases hu
        omega
    have hpower : (2 ^ e : ℚ) ≤ 2 ^ 971 := by
      rw [← zpow_natCast]
      exact zpow_le_zpow_right₀ (by norm_num) he
    calc (m * 2 ^ e : ℚ) < 2 ^ 53 * 2 ^ 971 :=
          mul_lt_mul hm hpower (by positivity) (by positivity)
      _ = 2 ^ 1024 := by rw [← pow_add]

theorem nearest_of_rounds (h : Rounds u v) : Nearest (.ofModel (Float.Model.pack u)) v := by
  obtain ⟨hcanonical, z, hz, herror⟩ := h
  obtain ⟨sign, rfl, rfl⟩ | ⟨m, e, hpos, rfl, rfl⟩ := magnitude?_cases hz
  · refine .inl ⟨0, ?_, herror⟩
    exact congrArg magnitude? unpack_packedZero
  · by_cases he : e ≤ 971
    · refine .inl ⟨m * 2 ^ e, ?_, herror⟩
      exact congrArg magnitude? (unpack_pack_finite hcanonical he)
    · refine .inr ⟨unpack_pack_overflow hpos (by omega), ?_⟩
      have hfull : (2 ^ 52 : ℚ) ≤ m := by
        exact_mod_cast hcanonical.full.resolve_right (by omega)
      have hlarge : (2 ^ 972 : ℚ) ≤ 2 ^ e := by
        rw [← zpow_natCast]
        exact zpow_le_zpow_right₀ (by norm_num) (by omega)
      have hvalue : (2 ^ 52 * 2 ^ 972 : ℚ) ≤ m * 2 ^ e :=
        mul_le_mul hfull hlarge (by positivity) (by positivity)
      have hleast : (2 ^ (-1075 : Int) : ℚ) ≤ 1 :=
        zpow_le_one_of_nonpos₀ (by norm_num) (by norm_num)
      have hle := (abs_le.1 herror).2
      have hlimit : (2 ^ 1022 : ℚ) = 2 ^ 50 * 2 ^ 972 := by rw [← pow_add]
      have hone : (1 : ℚ) ≤ 2 ^ 972 := one_le_pow₀ (by norm_num)
      rw [hlimit]
      generalize (2 ^ 972 : ℚ) = unit at *
      generalize (2 ^ (-1075 : Int) : ℚ) = least at *
      linarith only [hvalue, hleast, hle, hone]

theorem nearest_add (ha : value? x = some a) (hb : value? y = some b) : Nearest (x + y) (a + b) :=
  nearest_of_rounds (rounds_add (isCanonical_unpack x) (isCanonical_unpack y) ha hb)

theorem nearest_mul (ha : value? x = some a) (hb : value? y = some b) : Nearest (x * y) (a * b) :=
  nearest_of_rounds (rounds_mul (isCanonical_unpack x) (isCanonical_unpack y) ha hb)

theorem nearest_div (ha : value? x = some a) (hb : value? y = some b) (hne : b ≠ 0) :
    Nearest (x / y) (a / b) :=
  nearest_of_rounds (rounds_div ha hb hne)

theorem Nearest.not_isInfinite (h : Nearest x v) (hv : v ≤ 3 * 2 ^ 1022) : ¬IsInfinite x := by
  intro hinfinite
  obtain ⟨z, hz, _⟩ | ⟨_, hlarge⟩ := h
  · rw [value?, hinfinite] at hz
    cases hz
  · exact absurd hlarge hv.not_gt

theorem Nearest.abs_sub_le (h : Nearest x v) (hv : 1 / 2 ≤ v) (hfinite : ¬IsInfinite x) :
    ∃ z, value? x = some z ∧ |z - v| ≤ v / 2 ^ 52 := by
  obtain ⟨z, hz, herror⟩ := h.resolve_right fun h => hfinite h.1
  have hleast : (2 ^ (-1075 : Int) : ℚ) ≤ 1 / 2 ^ 54 := by
    calc (2 ^ (-1075 : Int) : ℚ) ≤ 2 ^ (-54 : Int) :=
          zpow_le_zpow_right₀ (by norm_num) (by norm_num)
      _ = 1 / 2 ^ 54 := by norm_num
  exact ⟨z, hz, by linarith⟩

theorem unpack_of_value?_zero (h : value? x = some 0) : ∃ sign, x.toModel.unpack = .zero sign := by
  obtain ⟨sign, hsign, _⟩ | ⟨m, e, hpos, _, hzero⟩ := magnitude?_cases h
  · exact ⟨sign, hsign⟩
  · have : (0 : ℚ) < m * 2 ^ e := by positivity
    linarith

theorem value?_mul_zero (ha : value? x = some a) (hb : value? y = some 0) :
    value? (x * y) = some 0 := by
  obtain ⟨sign, hy⟩ := unpack_of_value?_zero hb
  obtain ⟨s, hx, _⟩ | ⟨m, e, hpos, hx, _⟩ := magnitude?_cases ha
  all_goals
    rw [value?, unpack_mul, hx, hy]
    exact congrArg magnitude? unpack_packedZero

theorem value?_add_zero (ha : value? x = some a) (hb : value? y = some 0) :
    value? (x + y) = some a := by
  obtain ⟨sign, hy⟩ := unpack_of_value?_zero hb
  obtain ⟨s, hx, rfl⟩ | ⟨m, e, hpos, hx, _⟩ := magnitude?_cases ha
  · rw [value?, unpack_add, hx, hy]
    cases s <;> cases sign <;> exact congrArg magnitude? unpack_packedZero
  · have hsum : UnpackedFloat.add .binary64 x.toModel.unpack y.toModel.unpack =
        x.toModel.unpack := by
      rw [hx, hy]
      rfl
    rw [value?, unpack_add, hsum]
    exact (congrArg magnitude? (unpack_pack_unpack x)).trans ha

theorem isInfinite_add (hx : (∃ a, value? x = some a) ∨ IsInfinite x) (hy : IsInfinite y) :
    IsInfinite (x + y) := by
  rw [IsInfinite, unpack_add, hy]
  obtain ⟨a, ha⟩ | hx := hx
  · obtain ⟨s, hx, _⟩ | ⟨m, e, hpos, hx, _⟩ := magnitude?_cases ha
    all_goals
      rw [hx]
      exact unpack_packedInfinity .positive
  · rw [hx]
    exact unpack_packedInfinity .positive

theorem isInfinite_mul (hx : IsInfinite x) (hb : value? y = some b) (hne : b ≠ 0) :
    IsInfinite (x * y) := by
  obtain ⟨_, _, rfl⟩ | ⟨m, e, hpos, hy, _⟩ := magnitude?_cases hb
  · exact absurd rfl hne
  · rw [IsInfinite, unpack_mul, hx, hy]
    exact unpack_packedInfinity .positive

theorem isInfinite_div (hx : IsInfinite x) (hb : value? y = some b) (hne : b ≠ 0) :
    IsInfinite (x / y) := by
  obtain ⟨_, _, rfl⟩ | ⟨m, e, hpos, hy, _⟩ := magnitude?_cases hb
  · exact absurd rfl hne
  · rw [IsInfinite, unpack_div, hx, hy]
    exact unpack_packedInfinity .positive

theorem not_isInfinite_div (hx : ¬IsInfinite x) (hb : value? y = some b) (hle : 3 / 2 ≤ b) :
    ¬IsInfinite (x / y) := by
  by_cases hvalue : ∃ a, value? x = some a
  · obtain ⟨a, ha⟩ := hvalue
    apply (nearest_div ha hb (by linarith)).not_isInfinite
    have hlt : a < 4 * 2 ^ 1022 := by
      rw [show (4 : ℚ) = 2 ^ 2 by norm_num, ← pow_add]
      exact value?_lt ha
    have hpos : (0 : ℚ) < 2 ^ 1022 := by positivity
    generalize (2 ^ 1022 : ℚ) = unit at *
    rw [div_le_iff₀ (by linarith)]
    calc a ≤ 3 * unit * (3 / 2) := by linarith
      _ ≤ 3 * unit * b := mul_le_mul_of_nonneg_left hle (by linarith)
  · -- What has no value is below zero or undefined, and so is the quotient.
    obtain ⟨_, _, rfl⟩ | ⟨m, e, hpos, hy, _⟩ := magnitude?_cases hb
    · norm_num at hle
    intro hinfinite
    rw [IsInfinite, unpack_div, hy] at hinfinite
    rcases hu : x.toModel.unpack with ⟨_ | _⟩ | _ | _ | ⟨_ | _, m', e', _⟩
    all_goals rw [hu] at hinfinite
    case infinity.positive => exact hx hu
    case zero => exact hvalue ⟨_, by rw [value?, hu]; rfl⟩
    case finite.positive => exact hvalue ⟨_, by rw [value?, hu]; rfl⟩
    case infinity.negative => cases (unpack_packedInfinity .negative).symm.trans hinfinite
    case notANumber => cases unpack_packedNaN.symm.trans hinfinite
    case finite.negative => exact unpack_pack_roundWithAccuracy_negative_ne _ _ _ hinfinite

theorem value?_ofNat {n : Nat} (hn : n < 2 ^ 53) :
    ∃ z, value? (Float.ofScientific n false 0) = some z ∧ |z - n| ≤ (n / 2 ^ 50 : ℚ) := by
  by_cases hzero : n = 0
  · subst hzero
    exact ⟨0, rfl, by norm_num⟩
  have hunit : value? (Float.ofBits 0x3FF0000000000000) = some 1 := by
    have : (2 ^ 52 : Nat) * (2 : ℚ) ^ (-52 : Int) = 1 := by norm_num
    rw [← this]
    rfl
  have hpos : (1 : ℚ) ≤ n := by exact_mod_cast Nat.one_le_iff_ne_zero.2 hzero
  have hlt : (n : ℚ) < 2 ^ 53 := by exact_mod_cast hn
  have hlimit : (3 * 2 ^ 54 : ℚ) ≤ 3 * 2 ^ 1022 :=
    mul_le_mul_of_nonneg_left (pow_le_pow_right₀ (by norm_num) (by norm_num)) zero_le_three
  have hnearest : Nearest n.toUInt64.toFloat n := by
    have hcast : n.toUInt64.toNat = n := Nat.mod_eq_of_lt (by omega)
    have hrounds := rounds_round (e := 0) hzero
    rw [zpow_zero, mul_one, ← normalize_natCast hzero 0 .positive] at hrounds
    nth_rewrite 1 [← hcast] at hrounds
    exact nearest_of_rounds hrounds
  rw [Float.ofScientific, dif_pos ⟨hn, by decide⟩]
  have hfinite := hnearest.not_isInfinite (hlimit.trans' (by linarith))
  obtain ⟨z, hz, herror⟩ := hnearest.abs_sub_le (by linarith) hfinite
  have hbounds := abs_le.1 herror
  have hproduct := nearest_mul hz hunit
  have hfinite' := hproduct.not_isInfinite (hlimit.trans' (by linarith))
  obtain ⟨w, hw, herror'⟩ := hproduct.abs_sub_le (by linarith) hfinite'
  have hbounds' := abs_le.1 herror'
  refine ⟨w, hw, abs_le.2 ⟨?_, ?_⟩⟩
  · linarith
  · linarith

end Packed

end Tariff.Binary64
