import Tariff.Discount
import Tariff.Proofs.Exact
import Tariff.Proofs.Fault
import Tariff.Proofs.Validate

/-!
This module contains how well the percentage of a discount describes it in exact arithmetic.
Rounding keeps the order of percentages and their bounds, and moves them by half a unit of their
last place at most.
-/

namespace Tariff

namespace Amount

theorem round_eq (x : ℚ) : round x = if 0 ≤ x then (⌊x + 1 / 2⌋ : ℚ) else ⌈x - 1 / 2⌉ :=
  rfl

theorem ofNat_eq_natCast (n : Nat) : (ofNat n : ℚ) = n :=
  rfl

theorem abs_round_sub_le (x : ℚ) : |round x - x| ≤ 1 / 2 := by
  rw [round_eq, abs_le]
  split
  next =>
    have hle := Int.floor_le (x + 1 / 2)
    have hlt := Int.lt_floor_add_one (x + 1 / 2)
    constructor <;> linarith
  next =>
    have hle := Int.le_ceil (x - 1 / 2)
    have hlt := Int.ceil_lt_add_one (x - 1 / 2)
    constructor <;> linarith

theorem round_mono {x y : ℚ} (h : x ≤ y) : round x ≤ round y := by
  rw [round_eq, round_eq]
  by_cases hx : 0 ≤ x
  · rw [if_pos hx, if_pos (hx.trans h)]
    gcongr
  · rw [if_neg hx]
    split
    next hy =>
      have hbelow : ⌈x - 1 / 2⌉ ≤ 0 := Int.ceil_le.2 (by push_cast; linarith)
      have habove : 0 ≤ ⌊y + 1 / 2⌋ := Int.le_floor.2 (by push_cast; linarith)
      exact_mod_cast hbelow.trans habove
    next => gcongr

theorem round_natCast (n : Nat) : round (n : ℚ) = n := by
  rw [round_eq, if_pos n.cast_nonneg, Int.floor_natCast_add]
  norm_num

theorem roundTo_eq (x : ℚ) (places : Nat) :
    roundTo x places = round (x * 10 ^ places) / 10 ^ places := by
  unfold roundTo
  rw [ofNat_eq_natCast, Nat.pow_eq, Nat.cast_pow, Nat.cast_ofNat]

theorem abs_roundTo_sub_le (x : ℚ) (places : Nat) :
    |roundTo x places - x| ≤ 1 / 2 / 10 ^ places := by
  have hunit : (0 : ℚ) < 10 ^ places := by positivity
  have hsub : roundTo x places - x = (round (x * 10 ^ places) - x * 10 ^ places) / 10 ^ places := by
    rw [roundTo_eq]
    field_simp
  rw [hsub, abs_div, abs_of_pos hunit]
  gcongr
  exact abs_round_sub_le _

theorem roundTo_mono {x y : ℚ} (h : x ≤ y) (places : Nat) :
    roundTo x places ≤ roundTo y places := by
  rw [roundTo_eq, roundTo_eq]
  have := round_mono (mul_le_mul_of_nonneg_right h (by positivity : (0 : ℚ) ≤ 10 ^ places))
  gcongr

theorem roundTo_natCast (n places : Nat) : roundTo (n : ℚ) places = n := by
  have hwhole : (n : ℚ) * 10 ^ places = (n * 10 ^ places : Nat) := by push_cast; rfl
  rw [roundTo_eq, hwhole, round_natCast]
  push_cast
  field_simp

end Amount

namespace PriceFigures

variable {listTotal discountedTotal : ℚ}

theorem percent_of_zero (discountedTotal : ℚ) : percent 0 discountedTotal = 0 := by
  simp [percent, Amount.zero_eq_zero]

theorem percent_eq_clamp (h : listTotal ≠ 0) :
    percent listTotal discountedTotal =
      max 0 (min 100 ((listTotal - discountedTotal) / listTotal * 100)) := by
  unfold percent
  rw [Amount.zero_eq_zero, Amount.ofNat_eq_natCast, Nat.cast_ofNat]
  split
  next hguard =>
    obtain rfl : listTotal = discountedTotal := by simpa [h] using hguard
    simp
  next =>
    dsimp only
    rw [if_neg (show ¬Amount.isNaN _ = true from Bool.false_ne_true)]
    split
    next hlow => rw [max_eq_left (min_le_of_right_le hlow.le)]
    next hlow =>
      split
      next hhigh => rw [min_eq_left hhigh.le, max_eq_right (by norm_num)]
      next hhigh => rw [min_eq_right (not_lt.1 hhigh), max_eq_right (not_lt.1 hlow)]

theorem percent_mem (listTotal discountedTotal : ℚ) :
    0 ≤ percent listTotal discountedTotal ∧ percent listTotal discountedTotal ≤ 100 := by
  by_cases h : listTotal = 0
  · rw [h, percent_of_zero]
    norm_num
  · rw [percent_eq_clamp h]
    exact ⟨le_max_left .., max_le (by norm_num) (min_le_left ..)⟩

theorem percent_self (listTotal : ℚ) : percent listTotal listTotal = 0 := by
  by_cases h : listTotal = 0
  · rw [h, percent_of_zero]
  · rw [percent_eq_clamp h]
    simp

theorem percent_anti (h : 0 < listTotal) {discountedTotal discountedTotal' : ℚ}
    (hle : discountedTotal ≤ discountedTotal') :
    percent listTotal discountedTotal' ≤ percent listTotal discountedTotal := by
  rw [percent_eq_clamp h.ne', percent_eq_clamp h.ne']
  gcongr

theorem mul_percent_of_between (h : 0 < listTotal) (hnonneg : 0 ≤ discountedTotal)
    (hle : discountedTotal ≤ listTotal) :
    listTotal * (percent listTotal discountedTotal / 100) = listTotal - discountedTotal := by
  have hshare : (listTotal - discountedTotal) / listTotal ≤ 1 := by
    rw [div_le_one h]
    linarith
  have hshare' : 0 ≤ (listTotal - discountedTotal) / listTotal :=
    div_nonneg (by linarith) h.le
  rw [percent_eq_clamp h.ne', min_eq_right (by linarith), max_eq_right (by linarith)]
  field_simp

/--
The total that a rounded percentage stands for is off by the rounding alone.
-/
theorem abs_implied_sub_le (h : 0 < listTotal) (hnonneg : 0 ≤ discountedTotal)
    (hle : discountedTotal ≤ listTotal) (places : Nat) :
    |listTotal * (1 - Amount.roundTo (percent listTotal discountedTotal) places / 100) -
      discountedTotal| ≤ listTotal * 10 ^ (-(places : ℤ)) / 200 := by
  have herror := Amount.abs_roundTo_sub_le (percent listTotal discountedTotal) places
  have hexact := mul_percent_of_between h hnonneg hle
  generalize percent listTotal discountedTotal = exact at *
  generalize Amount.roundTo exact places = rounded at *
  calc |listTotal * (1 - rounded / 100) - discountedTotal|
    _ = |listTotal / 100 * (exact - rounded)| := by
      congr 1
      linarith
    _ = listTotal / 100 * |rounded - exact| := by
      rw [abs_mul, abs_of_pos (by positivity), abs_sub_comm]
    _ ≤ listTotal / 100 * (1 / 2 / 10 ^ places) := by gcongr
    _ = listTotal * 10 ^ (-(places : ℤ)) / 200 := by
      rw [zpow_neg, zpow_natCast]
      ring

variable {ε : Type} {listUnitPrice : ℚ} {discount : Option (Discount ℚ)} {precision : Precision}
  {reprice : ℚ → Except ε ℚ} {figures : PriceFigures ℚ}

theorem discountPercent_of_reconcile
    (h : reconcile listUnitPrice listTotal discount precision reprice = .ok figures) :
    figures.discountPercent =
      Amount.roundTo (percent listTotal figures.discountedTotal) precision.places := by
  unfold reconcile at h
  split at h
  next =>
    cases h
    rfl
  next =>
    obtain ⟨total, _, hok⟩ := exists_of_bind_eq_ok h
    cases hok
    rfl
  next =>
    cases h
    have hzero := Amount.roundTo_natCast 0 precision.places
    rw [Nat.cast_zero] at hzero
    simp only [listOnly, percent_self, hzero, Amount.zero_eq_zero]

/--
The percentage of a discount lies between 0 and 100 and is 0 where there is no list total or nothing
is taken off. On a positive list total it falls as the discounted total grows, and it gives back a
discounted total within the list total up to the rounding. A discounted total is reported as it is
given, whatever repricing would say.
-/
theorem reconcile_percent_faithful (listTotal : ℚ) (precision : Precision) :
    (∀ listUnitPrice discount (reprice : ℚ → Except ε ℚ) figures,
      reconcile listUnitPrice listTotal discount precision reprice = .ok figures →
      0 ≤ figures.discountPercent ∧ figures.discountPercent ≤ 100 ∧
      (listTotal = 0 ∨ figures.discountedTotal = listTotal → figures.discountPercent = 0) ∧
      (0 < listTotal → 0 ≤ figures.discountedTotal → figures.discountedTotal ≤ listTotal →
        |listTotal * (1 - figures.discountPercent / 100) - figures.discountedTotal| ≤
          listTotal * 10 ^ (-(precision.places : ℤ)) / 200)) ∧
    (0 < listTotal →
      ∀ listUnitPrice listUnitPrice' discount discount' (reprice reprice' : ℚ → Except ε ℚ)
        figures figures',
      reconcile listUnitPrice listTotal discount precision reprice = .ok figures →
      reconcile listUnitPrice' listTotal discount' precision reprice' = .ok figures' →
      figures.discountedTotal ≤ figures'.discountedTotal →
      figures'.discountPercent ≤ figures.discountPercent) ∧
    (∀ listUnitPrice total unitPrice, ∃ figures : PriceFigures ℚ,
      figures.discountedTotal = total ∧ ∀ reprice : ℚ → Except ε ℚ,
        reconcile listUnitPrice listTotal (some ⟨some total, unitPrice⟩) precision reprice =
          .ok figures) := by
  refine ⟨?_, ?_, ?_⟩
  · intro listUnitPrice discount reprice figures h
    have hpercent := discountPercent_of_reconcile h
    obtain ⟨hlow, hhigh⟩ := percent_mem listTotal figures.discountedTotal
    have hzero := Amount.roundTo_natCast 0 precision.places
    have hhundred := Amount.roundTo_natCast 100 precision.places
    rw [Nat.cast_zero] at hzero
    rw [Nat.cast_ofNat] at hhundred
    rw [hpercent]
    refine ⟨?_, ?_, ?_, ?_⟩
    · exact hzero.symm.trans_le (Amount.roundTo_mono hlow _)
    · exact (Amount.roundTo_mono hhigh _).trans_eq hhundred
    · rintro (hnone | hequal)
      · rw [hnone, percent_of_zero, hzero]
      · rw [hequal, percent_self, hzero]
    · intro hpos hnonneg hle
      exact abs_implied_sub_le hpos hnonneg hle _
  · intro hpos _ _ _ _ _ _ figures figures' h h' hle
    rw [discountPercent_of_reconcile h, discountPercent_of_reconcile h']
    exact Amount.roundTo_mono (percent_anti hpos hle) _
  · intro listUnitPrice total unitPrice
    exact ⟨_, rfl, fun _ => rfl⟩

theorem reconcile_thirds_faithful :
    ∃ third sixth : PriceFigures ℚ,
      reconcile (1 : ℚ) 3 (some { total := some 2 }) .core (fun _ => .error ()) = .ok third ∧
      reconcile (1 : ℚ) 3 (some { unitPrice := some (5 / 6) }) .core (fun x => .ok (x * 3)) =
        (.ok sixth : Except Unit _) ∧
      third.discountPercent = 33333 / 1000 ∧ sixth.discountPercent = 16667 / 1000 ∧
      (0 ≤ third.discountPercent ∧ third.discountPercent ≤ 100) ∧
      |3 * (1 - third.discountPercent / 100) - 2| ≤ 3 * 10 ^ (-(Precision.core.places : ℤ)) / 200 ∧
      sixth.discountPercent ≤ third.discountPercent := by
  obtain ⟨third, hthird, hpercent⟩ := exists_ok_of_any
    (p := fun figures => figures.discountedTotal = 2 ∧ figures.discountPercent = 33333 / 1000)
    (x := reconcile (1 : ℚ) 3 (some { total := some 2 }) .core fun _ => .error ())
    (by decide +kernel)
  obtain ⟨sixth, hsixth, hpercent'⟩ := exists_ok_of_any
    (p := fun figures => figures.discountedTotal = 5 / 2 ∧ figures.discountPercent = 16667 / 1000)
    (x := (reconcile (1 : ℚ) 3 (some { unitPrice := some (5 / 6) }) .core fun x => .ok (x * 3) :
      Except Unit _))
    (by decide +kernel)
  obtain ⟨htotal, hpercent⟩ := of_decide_eq_true hpercent
  obtain ⟨htotal', hpercent'⟩ := of_decide_eq_true hpercent'
  obtain ⟨hfaithful, hanti, _⟩ := reconcile_percent_faithful (ε := Unit) 3 .core
  obtain ⟨hlow, hhigh, _, hclose⟩ := hfaithful _ _ _ _ hthird
  rw [htotal] at hclose
  refine ⟨third, sixth, hthird, hsixth, hpercent, hpercent', ⟨hlow, hhigh⟩, ?_, ?_⟩
  · exact hclose (by norm_num) (by norm_num) (by norm_num)
  · apply hanti (by norm_num) _ _ _ _ _ _ _ _ hthird hsixth
    rw [htotal, htotal']
    norm_num

end PriceFigures

end Tariff
