import Mathlib.Data.List.TakeWhile
import Tariff.Curve
import Tariff.Proofs.Binary64.Ceiling

/-!
This module contains the order of the samples of a curve. The steps between them are rounded, but
there are so few of them that every step is far longer than the error of a sample.
-/

namespace Tariff

open Binary64

/--
A value is as close to an exact one as the few operations behind a sample can make it.
-/
def Close (x v : ℚ) : Prop :=
  |x - v| ≤ v / 2 ^ 48

theorem Close.refl {v : ℚ} (h : 0 ≤ v) : Close v v := by
  rw [Close, sub_self, abs_zero]
  positivity

section Points

variable {start step : Float} {a s : ℚ}

theorem value?_one : value? Amount.one = some 1 := by
  have : (2 ^ 52 : Nat) * (2 : ℚ) ^ (-52 : Int) = 1 := by norm_num
  rw [← this]
  rfl

theorem value?_zero : value? Amount.zero = some 0 := by
  rfl

theorem value?_first (ha : value? start = some a) (hs : value? step = some s) :
    value? (start + step * Amount.ofNat 0) = some a :=
  value?_add_zero ha (value?_mul_zero hs value?_zero)

theorem value?_point (ha : value? start = some a) (hs : value? step = some s) (hone : 1 ≤ s)
    {index : Nat} (hindex : index < 2 ^ 53) :
    IsInfinite (start + step * Amount.ofNat index) ∨
      ∃ z, value? (start + step * Amount.ofNat index) = some z ∧ Close z (a + s * index) := by
  have hnonneg := value?_nonneg ha
  by_cases hzero : index = 0
  · subst hzero
    rw [Nat.cast_zero, mul_zero, add_zero]
    exact .inr ⟨a, value?_first ha hs, .refl hnonneg⟩
  · have hpos : (1 : ℚ) ≤ index := by exact_mod_cast Nat.one_le_iff_ne_zero.2 hzero
    have hlength : 1 ≤ s * index := one_le_mul_of_one_le_of_one_le hone hpos
    obtain ⟨n, hn, hnerror⟩ : ∃ n, value? (Amount.ofNat index) = some n ∧ _ := value?_ofNat hindex
    have hproduct : |s * n - s * index| ≤ s * index / 2 ^ 50 := by
      rw [← mul_sub, abs_mul, abs_of_pos (by linarith), mul_div_assoc]
      exact mul_le_mul_of_nonneg_left hnerror (by linarith)
    rw [abs_le] at hproduct
    -- From here on all values are at least one, so every error is relative. A result that is too
    -- large makes the sample infinite.
    by_cases hinfinite : IsInfinite (step * Amount.ofNat index)
    · exact .inl (isInfinite_add (.inl ⟨a, ha⟩) hinfinite)
    obtain ⟨t, ht, hterror⟩ := (nearest_mul hs hn).abs_sub_le (by linarith) hinfinite
    rw [abs_le] at hterror
    by_cases hinfinite' : IsInfinite (start + step * Amount.ofNat index)
    · exact .inl hinfinite'
    obtain ⟨z, hz, hzerror⟩ := (nearest_add ha ht).abs_sub_le (by linarith) hinfinite'
    rw [abs_le] at hzerror
    refine .inr ⟨z, hz, abs_le.2 ⟨?_, ?_⟩⟩
    · linarith
    · linarith

/--
Samples that are close to the exact ones ascend as these do.
-/
theorem lt_of_close {a s high x y : ℚ} {i j : Nat} (hij : i < j) (hs : 1 ≤ s)
    (hhigh : high ≤ 102 * s) (hxhigh : x ≤ high) (hx : Close x (a + s * i))
    (hy : Close y (a + s * j)) : x < y := by
  have hgap : s * i + s ≤ s * j := by
    have : (i + 1 : ℚ) ≤ j := by exact_mod_cast hij
    calc s * i + s = s * (i + 1) := by ring
      _ ≤ s * j := mul_le_mul_of_nonneg_left this (by linarith)
  rw [Close, abs_le] at hx hy
  linarith

end Points

section Step

variable {x : Float}

theorem value?_greater_one (h : ¬IsInfinite x) :
    ∃ s, value? (Amount.greater x Amount.one) = some s ∧ 1 ≤ s ∧
      ∀ c, value? x = some c → c ≤ s := by
  unfold Amount.greater
  split
  next hbelow =>
    refine ⟨1, value?_one, le_rfl, ?_⟩
    intro c hc
    rw [isNaN_of_value? hc, Bool.false_or, decide_eq_true_eq] at hbelow
    exact ((lt_iff_value_lt hc value?_one).1 hbelow).le
  next habove =>
    rw [Bool.or_eq_true, decide_eq_true_eq, not_or, Bool.not_eq_true] at habove
    obtain ⟨hdefined, hlt⟩ := habove
    have hzero : (Amount.zero : Float) < x := by
      have hone : (Amount.zero : Float) < Amount.one :=
        (lt_iff_value_lt value?_zero value?_one).2 zero_lt_one
      exact Amount.lt_of_lt_of_le hone
        (Amount.le_of_not_lt (isNaN_of_value? value?_one) hdefined hlt)
    obtain ⟨s, hs⟩ := exists_value?_of_lt value?_zero hzero h
    refine ⟨s, hs, ?_, ?_⟩
    · rwa [lt_iff_value_lt hs value?_one, not_lt] at hlt
    · intro c hc
      exact (Option.some.inj (hc.symm.trans hs)).le

theorem greater_one_of_isInfinite (h : IsInfinite x) : Amount.greater x Amount.one = x := by
  have hone : (Amount.one : Float) ≤ x := le_of_isInfinite (isNaN_of_value? value?_one) h
  have hlt : ¬x < Amount.one := fun hlt => Amount.not_le_of_lt hlt hone
  simp [Amount.greater, isNaN_of_isInfinite h, hlt]

/--
The steps are finite, not shorter than one, and not so short that a hundred of them fall far behind.
-/
theorem value?_step {high : Float} {count : Nat} (hcount : 2 ≤ count)
    (hmax : count ≤ maxSampleCount) (hhigh : ¬IsInfinite high) :
    ∃ s, value? (Amount.greater (Amount.ceil (high / Amount.ofNat count)) Amount.one) = some s ∧
      1 ≤ s ∧ ∀ h, value? high = some h → h ≤ 102 * s := by
  have htwo : (2 : ℚ) ≤ count := by exact_mod_cast hcount
  have hhundred : (count : ℚ) ≤ 100 := by exact_mod_cast hmax
  obtain ⟨n, hn, herror⟩ : ∃ n, value? (Amount.ofNat count) = some n ∧ _ :=
    value?_ofNat (n := count) (by unfold maxSampleCount at hmax; omega)
  rw [abs_le] at herror
  have hfinite := not_isInfinite_div hhigh hn (by linarith)
  obtain ⟨s, hs, hone, hceil⟩ := value?_greater_one (not_isInfinite_ceil hfinite)
  refine ⟨s, hs, hone, ?_⟩
  intro h hh
  -- Up to here a step of one is long enough. Above, the quotient is at least one and its error
  -- relative.
  by_cases hsmall : h ≤ 102
  · linarith
  have hproduct : h = h / n * n := (div_mul_cancel₀ h (by linarith)).symm
  have hquotient : 1 ≤ h / n := by
    rw [le_div_iff₀ (by linarith)]
    linarith
  have hle : h ≤ h / n * 101 := by
    nth_rewrite 1 [hproduct]
    exact mul_le_mul_of_nonneg_left (by linarith) (by linarith)
  obtain ⟨q, hq, hqerror⟩ := (nearest_div hh hn (by linarith)).abs_sub_le (by linarith) hfinite
  rw [abs_le] at hqerror
  obtain ⟨c, hc, hcerror⟩ := value?_ceil hq
  have := hceil c hc
  linarith

end Step

/--
The start of the samples and the step between them fit to the end.
-/
structure Steps (start step high : Float) (a s : ℚ) : Prop where
  value?_start : value? start = some a
  value?_step : value? step = some s
  one_le : 1 ≤ s
  high_defined : Amount.isNaN high = false
  high_finite : ¬IsInfinite high
  /-- The end is about a hundred steps away at most. -/
  high_le : ∀ h, value? high = some h → h ≤ 102 * s

namespace Steps

variable {start step high : Float} {a s : ℚ} {i j : Nat}

theorem value?_point (h : Steps start step high a s) (hi : i < 2 ^ 53)
    (hbefore : ¬high ≤ start + step * Amount.ofNat i) :
    ∃ x y, value? (start + step * Amount.ofNat i) = some x ∧ value? high = some y ∧ x < y ∧
      Close x (a + s * i) := by
  obtain hinfinite | ⟨x, hx, hclose⟩ :=
    Tariff.value?_point h.value?_start h.value?_step h.one_le hi
  · exact absurd (le_of_isInfinite h.high_defined hinfinite) hbefore
  · have hlt := (Amount.not_le_iff (isNaN_of_value? hx) h.high_defined).1 hbefore
    obtain ⟨y, hy⟩ := exists_value?_of_lt hx hlt h.high_finite
    exact ⟨x, y, hx, hy, (lt_iff_value_lt hx hy).1 hlt, hclose⟩

theorem point_lt_high (h : Steps start step high a s) (hi : i < 2 ^ 53)
    (hbefore : ¬high ≤ start + step * Amount.ofNat i) : start + step * Amount.ofNat i < high := by
  obtain ⟨x, y, hx, hy, hxy, _⟩ := h.value?_point hi hbefore
  exact (lt_iff_value_lt hx hy).2 hxy

theorem point_lt_point (h : Steps start step high a s) (hij : i < j) (hj : j < 2 ^ 53)
    (hbefore : ¬high ≤ start + step * Amount.ofNat i)
    (hbefore' : ¬high ≤ start + step * Amount.ofNat j) :
    start + step * Amount.ofNat i < start + step * Amount.ofNat j := by
  obtain ⟨x, y, hx, hy, hxy, hclose⟩ := h.value?_point (hij.trans hj) hbefore
  obtain ⟨x', _, hx', _, _, hclose'⟩ := h.value?_point hj hbefore'
  rw [lt_iff_value_lt hx hx']
  exact lt_of_close hij h.one_le (h.high_le y hy) hxy.le hclose hclose'

theorem start_le_point (h : Steps start step high a s) (hstart : start ≤ high) (hi : i < 2 ^ 53)
    (hbefore : ¬high ≤ start + step * Amount.ofNat i) : start ≤ start + step * Amount.ofNat i := by
  obtain ⟨x, y, hx, hy, _, hclose⟩ := h.value?_point hi hbefore
  rw [le_iff_value_le h.value?_start hx]
  obtain rfl | hpos := Nat.eq_zero_or_pos i
  · have hfirst := value?_first h.value?_start h.value?_step
    exact (Option.some.inj (hfirst.symm.trans hx)).le
  · have hay : a ≤ y := (le_iff_value_le h.value?_start hy).1 hstart
    have hself : Close a (a + s * (0 : Nat)) := by
      rw [Nat.cast_zero, mul_zero, add_zero]
      exact .refl (value?_nonneg h.value?_start)
    exact (lt_of_close hpos h.one_le (h.high_le y hy) hay hself hclose).le

theorem zero_lt_point (h : Steps start step high a s) (hpos : 0 < a) (hi : i < 2 ^ 53)
    (hbefore : ¬high ≤ start + step * Amount.ofNat i) :
    Amount.zero < start + step * Amount.ofNat i := by
  obtain ⟨x, _, hx, _, _, hclose⟩ := h.value?_point hi hbefore
  have hsteps : 0 ≤ s * i := mul_nonneg (by linarith [h.one_le]) i.cast_nonneg
  rw [Close, abs_le] at hclose
  refine (lt_iff_value_lt value?_zero hx).2 ?_
  linarith

end Steps

section List

variable {β : Type} {p : β → Bool} {f : Nat → β} {n : Nat}

theorem forall_mem_takeWhile_map {P : β → Prop} (h : ∀ i < n, p (f i) = true → P (f i)) :
    ∀ x ∈ ((List.range n).map f).takeWhile p, P x := by
  intro x hx
  have hp := List.mem_takeWhile_imp hx
  obtain ⟨i, hi, rfl⟩ := List.mem_map.1 ((List.takeWhile_sublist p).subset hx)
  exact h i (List.mem_range.1 hi) hp

theorem pairwise_takeWhile_map {R : β → β → Prop}
    (h : ∀ i j, i < j → j < n → p (f i) = true → p (f j) = true → R (f i) (f j)) :
    (((List.range n).map f).takeWhile p).Pairwise R := by
  have hall : ((List.range n).map f).Pairwise fun x y => p x = true → p y = true → R x y := by
    rw [List.pairwise_map]
    refine List.pairwise_lt_range.imp_of_mem ?_
    intro i j _ hj hij
    exact h i j hij (List.mem_range.1 hj)
  refine (hall.sublist (List.takeWhile_sublist p)).imp_of_mem ?_
  intro x y hx hy hxy
  exact hxy (List.mem_takeWhile_imp hx) (List.mem_takeWhile_imp hy)

end List

section Samples

theorem samplePoints_of_count_le_one {α : Type} [Amount α] {low high : α} {count : Nat}
    (h : count ≤ 1) : samplePoints low high count = [high] := by
  have hcount : max 1 (min count maxSampleCount) = 1 := by omega
  simp [samplePoints, hcount]

theorem getLast?_samplePoints {α : Type} [Amount α] (low high : α) (count : Nat) :
    (samplePoints low high count).getLast? = some high := by
  simp [samplePoints]

theorem length_samplePoints_le {α : Type} [Amount α] (low high : α) (count : Nat) :
    (samplePoints low high count).length ≤ max 1 (min count maxSampleCount) := by
  unfold samplePoints
  dsimp only
  rw [List.length_append, List.length_singleton]
  refine Nat.le_trans (Nat.add_le_add_right (List.takeWhile_sublist _).length_le 1) ?_
  rw [List.length_map, List.length_range]
  omega

variable {low high : Float} {count : Nat}

/--
The samples begin at the lower end if it is positive, and one step after zero otherwise. Either way
none of them is below the lower end.
-/
theorem exists_steps (hle : low ≤ high) (hfinite : ¬IsInfinite high) {step : Float} {s : ℚ}
    (hs : value? step = some s) (hone : 1 ≤ s) (hmax : ∀ h, value? high = some h → h ≤ 102 * s) :
    ∃ a, Steps (if Amount.zero < low then low else step) step high a s ∧
      ∀ i < 2 ^ 53, ¬high ≤ (if Amount.zero < low then low else step) + step * Amount.ofNat i →
        low ≤ (if Amount.zero < low then low else step) + step * Amount.ofNat i := by
  obtain ⟨hlow, hhigh⟩ := LawfulAmount.defined_of_le hle
  split
  next hpos =>
    obtain ⟨a, ha⟩ := exists_value?_of_lt value?_zero hpos (not_isInfinite_of_le hle hfinite)
    have hsteps : Steps low step high a s := ⟨ha, hs, hone, hhigh, hfinite, hmax⟩
    exact ⟨a, hsteps, fun i hi => hsteps.start_le_point hle hi⟩
  next hneg =>
    have hsteps : Steps step step high s s := ⟨hs, hs, hone, hhigh, hfinite, hmax⟩
    refine ⟨s, hsteps, fun i hi hbefore => ?_⟩
    have hzero : low ≤ Amount.zero := Amount.le_of_not_lt hlow LawfulAmount.zero_defined hneg
    exact LawfulAmount.le_trans hzero
      (Amount.le_of_lt (hsteps.zero_lt_point (by linarith) hi hbefore))

theorem samplePoints_ascend (hle : low ≤ high) (h : count ≤ 1 ∨ ¬IsInfinite high) :
    (samplePoints low high count).Pairwise (· < ·) ∧
      ∀ sample ∈ samplePoints low high count, low ≤ sample ∧ sample ≤ high := by
  have hself : high ≤ high := Amount.le_refl (LawfulAmount.defined_of_le hle).2
  by_cases hcount : count ≤ 1
  · rw [samplePoints_of_count_le_one hcount]
    simp [hle, hself]
  have hfinite := h.resolve_left hcount
  unfold samplePoints
  dsimp only
  generalize hn : max 1 (min count maxSampleCount) = n
  have hbounds : 2 ≤ n ∧ n ≤ maxSampleCount ∧ maxSampleCount < 2 ^ 53 := by
    unfold maxSampleCount at *
    omega
  obtain ⟨s, hs, hone, hmax⟩ := value?_step hbounds.1 hbounds.2.1 hfinite
  generalize Amount.greater (Amount.ceil (high / Amount.ofNat n)) Amount.one = step at *
  obtain ⟨a, hsteps, hlow⟩ := exists_steps hle hfinite hs hone hmax
  generalize (if Amount.zero < low then low else step) = start at *
  have hbefore : ∀ {x : Float}, (!decide (high ≤ x)) = true → ¬high ≤ x := by
    intro x hx
    simpa using hx
  have hmem := forall_mem_takeWhile_map (n := n - 1) (p := fun x => !decide (high ≤ x))
    (f := fun i => start + step * Amount.ofNat i) (P := fun x => low ≤ x ∧ x < high)
    fun i hi hx => ⟨hlow i (by omega) (hbefore hx), hsteps.point_lt_high (by omega) (hbefore hx)⟩
  constructor
  · rw [List.pairwise_append]
    refine ⟨?_, List.pairwise_singleton _ high, ?_⟩
    · apply pairwise_takeWhile_map
      intro i j hij hj hi' hj'
      exact hsteps.point_lt_point hij (by omega) (hbefore hi') (hbefore hj')
    · intro x hx y hy
      rw [List.mem_singleton.1 hy]
      exact (hmem x hx).2
  · intro x hx
    rcases List.mem_append.1 hx with hx | hx
    · exact ⟨(hmem x hx).1, Amount.le_of_lt (hmem x hx).2⟩
    · rw [List.mem_singleton.1 hx]
      exact ⟨hle, hself⟩

theorem isInfinite_step (hhigh : IsInfinite high) (hcount : 2 ≤ count)
    (hmax : count ≤ maxSampleCount) :
    IsInfinite (Amount.greater (Amount.ceil (high / Amount.ofNat count)) Amount.one) := by
  obtain ⟨n, hn, herror⟩ : ∃ n, value? (Amount.ofNat count) = some n ∧ _ :=
    value?_ofNat (n := count) (by unfold maxSampleCount at hmax; omega)
  have hne : n ≠ 0 := by
    have : (2 : ℚ) ≤ count := by exact_mod_cast hcount
    rw [abs_le] at herror
    intro hzero
    linarith
  have hquotient := isInfinite_div hhigh hn hne
  have hceil : Amount.ceil (high / Amount.ofNat count) = high / Amount.ofNat count :=
    ceil_of_isInfinite hquotient
  rwa [hceil, greater_one_of_isInfinite hquotient]

/--
Infinite steps begin at a sample that is undefined, which does not count as being past the end. The
next one is the end.
-/
theorem samplePoints_of_isInfinite (low : Float) (hhigh : IsInfinite high) (hcount : 2 ≤ count) :
    ∃ first, Amount.isNaN first = true ∧ samplePoints low high count = [first, high] := by
  unfold samplePoints
  dsimp only
  generalize hn : max 1 (min count maxSampleCount) = n
  have hbounds : 2 ≤ n ∧ n ≤ maxSampleCount := by
    unfold maxSampleCount at *
    omega
  have hstep := isInfinite_step hhigh hbounds.1 hbounds.2
  generalize Amount.greater (Amount.ceil (high / Amount.ofNat n)) Amount.one = step at *
  have hstart : (∃ a, value? (if Amount.zero < low then low else step) = some a) ∨
      IsInfinite (if Amount.zero < low then low else step) := by
    split
    next hpos =>
      by_cases hlow : IsInfinite low
      · exact .inr hlow
      · exact .inl (exists_value?_of_lt value?_zero hpos hlow)
    next => exact .inr hstep
  generalize (if Amount.zero < low then low else step) = start at *
  have hfirst : Amount.isNaN (start + step * Amount.ofNat 0) = true :=
    isNaN_add (isNaN_mul_of_isInfinite hstep value?_zero)
  have hbefore : ¬high ≤ start + step * Amount.ofNat 0 := by
    intro hle
    exact Bool.false_ne_true ((LawfulAmount.defined_of_le hle).2.symm.trans hfirst)
  have hsecond : high ≤ start + step * Amount.ofNat 1 := by
    have hinfinite := isInfinite_add hstart (isInfinite_mul hstep value?_one one_ne_zero)
    exact le_of_isInfinite (isNaN_of_isInfinite hhigh) hinfinite
  refine ⟨_, hfirst, ?_⟩
  rw [show n - 1 = n - 2 + 1 by omega, List.range_succ_eq_map]
  cases n - 2 with
  | zero => simp [hbefore]
  | succ rest => simp [List.range_succ_eq_map, hbefore, hsecond]

theorem samplePoints_sorted (hle : low ≤ high) :
    (samplePoints low high count).Pairwise fun a b => Amount.sortLe a b = true := by
  by_cases h : count ≤ 1 ∨ ¬IsInfinite high
  · refine (samplePoints_ascend hle h).1.imp ?_
    intro a b hlt
    exact decide_eq_true (rank_lt_of_lt hlt).le
  · rw [not_or, not_not, not_le] at h
    obtain ⟨first, hfirst, hsamples⟩ := samplePoints_of_isInfinite low h.2 h.1
    rw [hsamples]
    exact List.pairwise_pair.2 (decide_eq_true (rank_le_of_isNaN hfirst))

end Samples

end Tariff
