import Tariff.Proofs.Amount
import Tariff.Proofs.Binary64.Arithmetic

/-!
This module contains the order of `Float` numbers: it is that of their values, and sorting puts
numbers into it.
-/

namespace Tariff.Binary64

open Float.Model Float.Model.UnpackedFloat

section Value

variable {x y : Float} {a b : ℚ}

theorem value_lt_of_exponent_lt {m₁ m₂ : Nat} {e₁ e₂ : Int} (h₁ : Canonical m₁ e₁)
    (h₂ : Canonical m₂ e₂) (h : e₁ < e₂) : (m₁ * 2 ^ e₁ : ℚ) < m₂ * 2 ^ e₂ := by
  have hlt : (m₁ : ℚ) < 2 ^ 53 := by exact_mod_cast h₁.lt
  have hfull : (2 ^ 52 : ℚ) ≤ m₂ := by
    have := h₁.least_le
    exact_mod_cast h₂.full.resolve_right (by omega)
  have hdouble : (2 ^ (e₁ + 1) : ℚ) ≤ 2 ^ e₂ := zpow_le_zpow_right₀ (by norm_num) (by omega)
  calc (m₁ * 2 ^ e₁ : ℚ) < 2 ^ 53 * 2 ^ e₁ := mul_lt_mul_of_pos_right hlt (by positivity)
    _ = 2 ^ 52 * 2 ^ (e₁ + 1) := by
      rw [zpow_add_one₀ (by norm_num)]
      ring
    _ ≤ m₂ * 2 ^ e₂ := mul_le_mul hfull hdouble (by positivity) (by positivity)

theorem value_lt_of_lex_lt {m₁ m₂ : Nat} {e₁ e₂ : Int} (h₁ : Canonical m₁ e₁)
    (h₂ : Canonical m₂ e₂) (h : toLex (e₁, (m₁ : Int)) < toLex (e₂, (m₂ : Int))) :
    (m₁ * 2 ^ e₁ : ℚ) < m₂ * 2 ^ e₂ := by
  obtain hexponent | ⟨hexponent, hmantissa⟩ := Prod.Lex.toLex_lt_toLex.1 h
  · exact value_lt_of_exponent_lt h₁ h₂ hexponent
  · dsimp only at hexponent hmantissa
    rw [hexponent]
    have hlt : (m₁ : ℚ) < m₂ := by exact_mod_cast hmantissa
    exact mul_lt_mul_of_pos_right hlt (by positivity)

theorem value_lt_iff_lex_lt {m₁ m₂ : Nat} {e₁ e₂ : Int} (h₁ : Canonical m₁ e₁)
    (h₂ : Canonical m₂ e₂) :
    (m₁ * 2 ^ e₁ : ℚ) < m₂ * 2 ^ e₂ ↔ toLex (e₁, (m₁ : Int)) < toLex (e₂, (m₂ : Int)) := by
  refine ⟨fun hvalue => ?_, value_lt_of_lex_lt h₁ h₂⟩
  by_contra hlex
  obtain heq | hgt := (not_lt.1 hlex).eq_or_lt
  · cases toLex.injective heq
    exact lt_irrefl _ hvalue
  · exact lt_asymm hvalue (value_lt_of_lex_lt h₂ h₁ hgt)

theorem lt_iff_value_lt (ha : value? x = some a) (hb : value? y = some b) : x < y ↔ a < b := by
  have hx := isCanonical_unpack x
  have hy := isCanonical_unpack y
  rw [Amount.float_lt_iff]
  obtain ⟨s₁, hux, rfl⟩ | ⟨m₁, e₁, hm₁, hux, rfl⟩ := magnitude?_cases ha
  all_goals
    rw [hux] at hx ⊢
    obtain ⟨s₂, huy, rfl⟩ | ⟨m₂, e₂, hm₂, huy, rfl⟩ := magnitude?_cases hb
    all_goals
      rw [huy] at hy ⊢
      simp only [Amount.place, Option.some.injEq, exists_and_left, exists_eq_left']
  · simp
  · have : (0 : ℚ) < m₂ * 2 ^ e₂ := by positivity
    simp [Prod.Lex.toLex_lt_toLex, this]
  · have : (0 : ℚ) < m₁ * 2 ^ e₁ := by positivity
    simp [Prod.Lex.toLex_lt_toLex, this.le]
  · rw [value_lt_iff_lex_lt hx hy, Prod.Lex.toLex_lt_toLex]
    simp

theorem isNaN_of_value? (h : value? x = some a) : Amount.isNaN x = false := by
  rw [Amount.float_isNaN_eq_false_iff]
  obtain ⟨_, hx, _⟩ | ⟨_, _, _, hx, _⟩ := magnitude?_cases h
  all_goals
    rw [hx]
    exact ⟨_, rfl⟩

theorem le_iff_value_le (ha : value? x = some a) (hb : value? y = some b) : x ≤ y ↔ a ≤ b := by
  rw [← Amount.not_lt_iff (isNaN_of_value? ha) (isNaN_of_value? hb), lt_iff_value_lt hb ha, not_lt]

theorem isNaN_of_isInfinite (h : IsInfinite x) : Amount.isNaN x = false := by
  rw [Amount.float_isNaN_eq_false_iff, h]
  exact ⟨_, rfl⟩

theorem isNaN_eq_true_iff : Amount.isNaN x = true ↔ x.toModel.unpack = .notANumber :=
  UnpackedFloat.isNaN_iff

theorem isNaN_add (hy : Amount.isNaN y = true) : Amount.isNaN (x + y) = true := by
  rw [isNaN_eq_true_iff] at hy ⊢
  rw [unpack_add, hy]
  cases x.toModel.unpack <;> exact unpack_packedNaN

theorem isNaN_mul_of_isInfinite (hx : IsInfinite x) (hy : value? y = some 0) :
    Amount.isNaN (x * y) = true := by
  obtain ⟨sign, hzero⟩ := unpack_of_value?_zero hy
  rw [isNaN_eq_true_iff, unpack_mul, hx, hzero]
  exact unpack_packedNaN

theorem le_of_isInfinite (hx : Amount.isNaN x = false) (hy : IsInfinite y) : x ≤ y := by
  obtain ⟨p, hp⟩ := (Amount.float_isNaN_eq_false_iff x).1 hx
  refine (Amount.float_le_iff x y).2 ⟨p, _, hp, by rw [hy]; rfl, ?_⟩
  rcases hu : x.toModel.unpack with ⟨_ | _⟩ | _ | _ | ⟨_ | _, m, e, _⟩
  all_goals
    rw [hu] at hp
    cases hp
  all_goals simp [Prod.Lex.toLex_le_toLex]

theorem not_isInfinite_of_le (h : x ≤ y) (hy : ¬IsInfinite y) : ¬IsInfinite x := by
  intro hx
  obtain ⟨p, q, hp, hq, hpq⟩ := (Amount.float_le_iff x y).1 h
  rw [hx] at hp
  cases hp
  rcases hu : y.toModel.unpack with ⟨_ | _⟩ | _ | _ | ⟨_ | _, m, e, _⟩
  case infinity.positive => exact hy hu
  all_goals
    rw [hu] at hq
    cases hq
  all_goals simp [Prod.Lex.toLex_le_toLex] at hpq

theorem lt_top_iff (hx : Amount.isNaN x = false) : x < Amount.top ↔ ¬IsInfinite x := by
  have htop : IsInfinite Amount.top := by rfl
  rw [← Amount.not_le_iff hx (isNaN_of_isInfinite htop), not_iff_not]
  constructor
  · intro h
    by_contra hfinite
    exact not_isInfinite_of_le h hfinite htop
  · exact le_of_isInfinite (isNaN_of_isInfinite htop)

theorem exists_value?_of_lt (ha : value? x = some a) (h : x < y) (hy : ¬IsInfinite y) :
    ∃ b, value? y = some b := by
  obtain ⟨p, q, hp, hq, hpq⟩ := (Amount.float_lt_iff x y).1 h
  rcases hu : y.toModel.unpack with ⟨_ | _⟩ | _ | _ | ⟨_ | _, m, e, hpos⟩
  case infinity.positive => exact absurd hu hy
  case zero => exact ⟨0, by rw [value?, hu]; rfl⟩
  case finite.positive => exact ⟨m * 2 ^ e, by rw [value?, hu]; rfl⟩
  case notANumber =>
    rw [hu] at hq
    cases hq
  -- What is left is below zero, and the number below it is not.
  all_goals
    rw [hu] at hq
    obtain ⟨_, hx, _⟩ | ⟨_, _, _, hx, _⟩ := magnitude?_cases ha
    all_goals
      rw [hx] at hp
      cases hp
      cases hq
      simp [Prod.Lex.toLex_lt_toLex] at hpq

end Value

section Rank

/--
The place of a number goes along with its fields.
-/
theorem apply_lt_of_place_lt {s₁ s₂ : Sign} {e₁ e₂ m₁ m₂ : Nat} (he₁ : e₁ < 2 ^ 11)
    (hm₁ : m₁ < 2 ^ 52) (he₂ : e₂ < 2 ^ 11) (hm₂ : m₂ < 2 ^ 52) {p q : Int ×ₗ Int ×ₗ Int}
    (hp : Amount.place (ofFields s₁ e₁ m₁) = some p)
    (hq : Amount.place (ofFields s₂ e₂ m₂) = some q) (h : p < q) :
    s₁.apply (e₁ * 2 ^ 52 + m₁ : Int) < s₂.apply (e₂ * 2 ^ 52 + m₂ : Int) := by
  unfold ofFields at hp hq
  -- The kinds of numbers are finitely many, and within two kinds the comparison is linear.
  cases s₁ <;> cases s₂ <;> split_ifs at hp hq
  all_goals simp only [Amount.place, Option.some.injEq, reduceCtorEq] at hp hq
  all_goals
    subst hp
    subst hq
    simp only [Prod.Lex.toLex_lt_toLex, Sign.apply] at h ⊢
    omega

theorem rank_eq {x : Float} {sign : Sign} {index : Nat} (hx : x.isNaN = false)
    (hbits : x.toBits.toNat = sign.toBitVec.toNat * 2 ^ 63 + index) (hindex : index < 2 ^ 63) :
    Decimal.Binary.rank x = match sign with
      | .positive => (index : Int)
      | .negative => -1 - index := by
  unfold Decimal.Binary.rank
  rw [hx, hbits, show Nat.pow 2 63 = 2 ^ 63 from rfl]
  cases sign with
  | positive =>
    rw [show Sign.positive.toBitVec.toNat = 0 from rfl]
    norm_num
    omega
  | negative =>
    rw [show Sign.negative.toBitVec.toNat = 1 from rfl]
    norm_num
    omega

theorem rank_lt_of_lt {x y : Float} (h : x < y) :
    Decimal.Binary.rank x < Decimal.Binary.rank y := by
  obtain ⟨hx, hy⟩ := LawfulAmount.defined_of_le (Amount.le_of_lt h)
  obtain ⟨p, q, hp, hq, hpq⟩ := (Amount.float_lt_iff x y).1 h
  obtain ⟨s₁, e₁, m₁, hux, he₁, hm₁, hbits₁⟩ := exists_fields x
  obtain ⟨s₂, e₂, m₂, huy, he₂, hm₂, hbits₂⟩ := exists_fields y
  rw [hux] at hp
  rw [huy] at hq
  have hlt := apply_lt_of_place_lt he₁ hm₁ he₂ hm₂ hp hq hpq
  rw [Nat.add_assoc] at hbits₁ hbits₂
  rw [rank_eq hx hbits₁ (by omega), rank_eq hy hbits₂ (by omega)]
  cases s₁ <;> cases s₂
  all_goals
    simp only [Sign.apply] at hlt ⊢
    push_cast
    omega

theorem rank_le_of_isNaN {x y : Float} (h : Amount.isNaN x = true) :
    Decimal.Binary.rank x ≤ Decimal.Binary.rank y := by
  have hx : x.isNaN = true := h
  have hbits := y.toBits.toNat_lt
  unfold Decimal.Binary.rank
  rw [hx, show Nat.pow 2 63 = 2 ^ 63 from rfl, if_pos rfl]
  dsimp only
  split_ifs <;> push_cast <;> omega

end Rank

end Tariff.Binary64
