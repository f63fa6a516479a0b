import Mathlib
import Tariff.Proofs.Binary64.Rounding

/-!
This module contains what the bits of a `Float` say: the number that they stand for, and that a
number in its canonical form comes back from its bits unless it is too large.
-/

namespace Tariff.Binary64

open Float.Model Float.Model.UnpackedFloat

/--
The number with a sign, a field for the exponent and a field for the mantissa.
-/
def ofFields (sign : Sign) (exponent mantissa : Nat) : UnpackedFloat :=
  if exponent = 2047 then
    if mantissa = 0 then .infinity sign else .notANumber
  else if exponent = 0 then
    if h : mantissa = 0 then .zero sign
    else .finite sign mantissa (-1074) (Nat.pos_of_ne_zero h)
  else
    .finite sign (2 ^ 52 + mantissa) (exponent - 1075) (by omega)

theorem isCanonical_ofFields {sign : Sign} {exponent mantissa : Nat}
    (hmantissa : mantissa < 2 ^ 52) : IsCanonical (ofFields sign exponent mantissa) := by
  unfold ofFields
  split
  next => split <;> trivial
  next =>
    split
    next =>
      split
      next => trivial
      next hne => exact ⟨Nat.pos_of_ne_zero hne, by omega, by omega, .inr rfl⟩
    next => exact ⟨by omega, by omega, by omega, .inl (by omega)⟩

theorem toNat_one_append (mantissa : BitVec 52) :
    (1#1 ++ mantissa).toNat = 2 ^ 52 + mantissa.toNat := by
  rw [BitVec.toNat_append, ← Nat.shiftLeft_add_eq_or_of_lt mantissa.isLt]
  rfl

theorem finite_congr {sign : Sign} {m m' : Nat} {e e' : Int} {hpos : 0 < m} {hpos' : 0 < m'}
    (hm : m = m') (he : e = e') :
    UnpackedFloat.finite sign m e hpos = .finite sign m' e' hpos' := by
  subst hm he
  rfl

theorem unpack_eq_ofFields (bits : BitVec 64) :
    UnpackedFloat.unpack .binary64 bits =
      ofFields (Sign.ofBitVec (@unpackSign .binary64 bits)) (@unpackExponent .binary64 bits).toNat
        (@unpackMantissa .binary64 bits).toNat := by
  have hall : @unpackExponent .binary64 bits = -1#11 ↔
      (@unpackExponent .binary64 bits).toNat = 2047 := by
    rw [← BitVec.toNat_inj]
    rfl
  have hnone : @unpackExponent .binary64 bits = 0#11 ↔
      (@unpackExponent .binary64 bits).toNat = 0 := by
    rw [← BitVec.toNat_inj]
    rfl
  have hzero : @unpackMantissa .binary64 bits = 0#52 ↔
      (@unpackMantissa .binary64 bits).toNat = 0 := by
    rw [← BitVec.toNat_inj]
    rfl
  unfold UnpackedFloat.unpack ofFields
  simp only [hall, hnone, hzero]
  split
  next => rfl
  next =>
    split
    next hexponent =>
      rw [hexponent]
      rfl
    next => exact finite_congr (toNat_one_append _) rfl

theorem unpack_packComponents (sign : Sign) (exponent : BitVec 11) (mantissa : BitVec 52) :
    UnpackedFloat.unpack .binary64 (packComponents .binary64 sign exponent mantissa) =
      ofFields sign exponent.toNat mantissa.toNat := by
  rw [unpack_eq_ofFields, unpackSign_packComponents, Sign.ofBitVec_toBitVec,
    unpackExponent_packComponents, unpackMantissa_packComponents]

theorem unpack_packedInfinity (sign : Sign) :
    UnpackedFloat.unpack .binary64 (packedInfinity .binary64 sign) = .infinity sign := by
  rw [packedInfinity, unpack_packComponents]
  rfl

variable {sign : Sign} {m : Nat} {e : Int}

theorem pack_finite (hpos : 0 < m) :
    UnpackedFloat.pack .binary64 (.finite sign m e hpos) =
      if 2 ^ 11 ≤ (e + 1075).toNat + 1 then packedInfinity .binary64 sign
      else if m.log2 + 1 = 53 then
        packComponents .binary64 sign (BitVec.ofNat 11 (e + 1075).toNat) (BitVec.ofNat 52 m)
      else packComponents .binary64 sign 0#11 (BitVec.ofNat 52 m) := by
  have hbias : e + (1023 : Nat) + (52 : Nat) = e + 1075 := by omega
  rw [← hbias]
  rfl

theorem unpack_pack_finite (h : Canonical m e) (he : e ≤ 971) :
    UnpackedFloat.unpack .binary64 (UnpackedFloat.pack .binary64 (.finite sign m e h.pos)) =
      .finite sign m e h.pos := by
  obtain ⟨hpos, hlt, hleast, hfull⟩ := h
  rw [pack_finite, if_neg (by omega)]
  split
  next hlog =>
    have hge : 2 ^ 52 ≤ m := by
      rw [← show m.log2 = 52 by omega]
      exact Nat.log2_self_le hpos.ne'
    have hexponent : (e + 1075).toNat % 2 ^ 11 = (e + 1075).toNat := Nat.mod_eq_of_lt (by omega)
    have hmantissa : 2 ^ 52 + m % 2 ^ 52 = m := by omega
    rw [unpack_packComponents, BitVec.toNat_ofNat, BitVec.toNat_ofNat, hexponent, ofFields,
      if_neg (by omega), if_neg (by omega)]
    exact finite_congr hmantissa (by omega)
  next hlog =>
    have hsmall : m < 2 ^ 52 := by
      by_contra hge
      have := (Nat.le_log2 hpos.ne').2 (Nat.not_lt.1 hge)
      have := (Nat.log2_lt hpos.ne').2 hlt
      omega
    have hmantissa : (BitVec.ofNat 52 m).toNat = m := by
      rw [BitVec.toNat_ofNat, Nat.mod_eq_of_lt hsmall]
    rw [unpack_packComponents, hmantissa, show (0#11).toNat = 0 from rfl, ofFields,
      if_neg (by decide), if_pos rfl, dif_neg hpos.ne']
    exact finite_congr rfl (hfull.resolve_left (by omega)).symm

theorem unpack_pack_overflow (hpos : 0 < m) (he : 971 < e) :
    UnpackedFloat.unpack .binary64 (UnpackedFloat.pack .binary64 (.finite sign m e hpos)) =
      .infinity sign := by
  rw [pack_finite, if_pos (by omega), unpack_packedInfinity]

theorem unpack_pack_negative_ne (hpos : 0 < m) :
    UnpackedFloat.unpack .binary64 (UnpackedFloat.pack .binary64 (.finite .negative m e hpos)) ≠
      .infinity .positive := by
  have hfields : ∀ exponent mantissa,
      ofFields .negative exponent mantissa ≠ .infinity .positive := by
    intro exponent mantissa
    unfold ofFields
    split_ifs <;> simp
  rw [pack_finite]
  split_ifs
  · rw [unpack_packedInfinity]
    simp
  · rw [unpack_packComponents]
    exact hfields _ _
  · rw [unpack_packComponents]
    exact hfields _ _

theorem unpack_pack_roundWithAccuracy_negative_ne (m : Nat) (e : Int) (accuracy : Accuracy) :
    UnpackedFloat.unpack .binary64 (UnpackedFloat.pack .binary64
      (roundWithAccuracy .binary64 .negative m e accuracy)) ≠ .infinity .positive := by
  unfold roundWithAccuracy
  dsimp only
  split
  · intro h
    cases unpack_packedZero.symm.trans h
  · exact unpack_pack_negative_ne _

theorem toNat_eq_fields (bits : BitVec 64) :
    bits.toNat = (Sign.ofBitVec (@unpackSign .binary64 bits)).toBitVec.toNat * 2 ^ 63 +
      (@unpackExponent .binary64 bits).toNat * 2 ^ 52 + (@unpackMantissa .binary64 bits).toNat := by
  have hlt := bits.isLt
  have hsign : (@unpackSign .binary64 bits).toNat = bits.toNat / 2 ^ 63 := by
    change (bits.toNat >>> 63) % 2 ^ 1 = _
    rw [Nat.shiftRight_eq_div_pow]
    omega
  have hexponent : (@unpackExponent .binary64 bits).toNat = bits.toNat / 2 ^ 52 % 2 ^ 11 := by
    simp [unpackExponent, Nat.shiftRight_eq_div_pow]
  have hmantissa : (@unpackMantissa .binary64 bits).toNat = bits.toNat % 2 ^ 52 := by
    simp [unpackMantissa]
  rw [Sign.toBitVec_ofBitVec, hsign, hexponent, hmantissa]
  omega

theorem exists_fields (x : Float) :
    ∃ sign exponent mantissa, x.toModel.unpack = ofFields sign exponent mantissa ∧
      exponent < 2 ^ 11 ∧ mantissa < 2 ^ 52 ∧
      x.toBits.toNat = sign.toBitVec.toNat * 2 ^ 63 + exponent * 2 ^ 52 + mantissa :=
  ⟨_, _, _, unpack_eq_ofFields _, BitVec.isLt _, BitVec.isLt _, toNat_eq_fields _⟩

theorem isCanonical_unpack (x : Float) : IsCanonical x.toModel.unpack := by
  obtain ⟨sign, exponent, mantissa, h, _, hmantissa, _⟩ := exists_fields x
  rw [h]
  exact isCanonical_ofFields hmantissa

theorem unpack_pack_unpack (x : Float) :
    (Float.Model.pack x.toModel.unpack).unpack = x.toModel.unpack :=
  congrArg (UnpackedFloat.unpack .binary64) (pack_unpack_of_valid x.toModel.valid)

end Tariff.Binary64
