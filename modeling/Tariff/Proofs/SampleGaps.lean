import Mathlib.Data.List.Range
import Tariff.Proofs.Exact
import Tariff.Proofs.Samples

/-!
This module contains how the samples of a curve cover the quantities in exact arithmetic. They are
one step apart up to the last one, and never so few that more than two steps are left before it.
-/

namespace Tariff

theorem exists_takeWhile_map_range {β : Type} (p : β → Bool) (f : Nat → β) (n : Nat) :
    ∃ k ≤ n, ((List.range n).map f).takeWhile p = (List.range k).map f ∧
      (∀ i < k, p (f i) = true) ∧ (k = n ∨ p (f k) = false) := by
  induction n generalizing f with
  | zero => exact ⟨0, le_rfl, rfl, nofun, .inl rfl⟩
  | succ n ih =>
    rw [List.range_succ_eq_map, List.map_cons, List.map_map]
    cases hp : p (f 0) with
    | false => exact ⟨0, Nat.zero_le _, by simp [hp], nofun, .inr hp⟩
    | true =>
      obtain ⟨k, hk, htake, hbefore, hend⟩ := ih (f ∘ Nat.succ)
      refine ⟨k + 1, Nat.succ_le_succ hk, ?_, ?_, ?_⟩
      · rw [List.takeWhile_cons_of_pos hp, htake, List.range_succ_eq_map, List.map_cons,
          List.map_map]
      · intro i hi
        cases i with
        | zero => exact hp
        | succ i => exact hbefore i (Nat.lt_of_succ_lt_succ hi)
      · exact hend.imp_left (congrArg Nat.succ)

def sampleLimit (count : Nat) : Nat :=
  max 1 (min count 100)

/--
The whole steps that at most a number of samples take to the upper end.
-/
def sampleStep (high : ℚ) (limit : Nat) : ℚ :=
  max 1 ⌈high / limit⌉

theorem one_le_sampleLimit (count : Nat) : 1 ≤ sampleLimit count :=
  le_max_left ..

theorem one_le_sampleStep (high : ℚ) (limit : Nat) : 1 ≤ sampleStep high limit :=
  le_max_left ..

theorem le_sampleStep_mul (high : ℚ) {limit : Nat} (h : 1 ≤ limit) :
    high ≤ sampleStep high limit * limit := by
  have hpos : (0 : ℚ) < limit := by exact_mod_cast h
  rw [← div_le_iff₀ hpos]
  calc high / limit
    _ ≤ ⌈high / limit⌉ := Int.le_ceil _
    _ ≤ sampleStep high limit := le_max_right ..

/--
A number of samples that are steps from a start, and the upper end after them.
-/
def stepsUpTo (start step high : ℚ) (taken : Nat) : List ℚ :=
  (List.range taken).map (fun i : Nat => start + step * i) ++ [high]

/--
The samples before the upper end are steps for as long as these are below the end and the number of
samples allows it.
-/
structure Sampling (start step high : ℚ) (limit taken : Nat) : Prop where
  below : ∀ i < taken, start + step * i < high
  stopped : taken + 1 = limit ∨ taken < limit ∧ high ≤ start + step * taken

theorem exists_sampling (low high : ℚ) (count : Nat) {start step : ℚ}
    (hstep : step = sampleStep high (sampleLimit count))
    (hstart : start = if 0 < low then low else step) :
    ∃ taken, samplePoints low high count = stepsUpTo start step high taken ∧
      Sampling start step high (sampleLimit count) taken := by
  obtain ⟨taken, htaken, heq, hbefore, hend⟩ :=
    exists_takeWhile_map_range (fun x => !decide (high ≤ x)) (fun i : Nat => start + step * i)
      (sampleLimit count - 1)
  have hlimit := one_le_sampleLimit count
  refine ⟨taken, ?_, ?_, ?_⟩
  · rw [stepsUpTo, ← heq, hstart, hstep]
    unfold samplePoints
    dsimp only
    rw [Amount.greater_eq_max, max_comm, Amount.zero_eq_zero]
    rfl
  · simpa using hbefore
  · rcases hend with rfl | hend
    · exact .inl (by omega)
    · exact .inr ⟨by omega, by simpa using hend⟩

namespace Sampling

variable {low start step high : ℚ} {limit taken : Nat}

theorem length_le (h : Sampling start step high limit taken) :
    (stepsUpTo start step high taken).length ≤ limit := by
  rw [stepsUpTo, List.length_append, List.length_map, List.length_range, List.length_singleton]
  rcases h.stopped with heq | ⟨hlt, _⟩ <;> omega

theorem pairwise_lt (h : Sampling start step high limit taken) (hstep : 0 < step) :
    (stepsUpTo start step high taken).Pairwise (· < ·) := by
  rw [stepsUpTo, List.pairwise_append, List.pairwise_map]
  refine ⟨List.pairwise_lt_range.imp ?_, List.pairwise_singleton _ high, ?_⟩
  · intro i j hij
    gcongr
  · simpa using h.below

theorem mem_between (h : Sampling start step high limit taken) (hstep : 0 < step)
    (hstart : low ≤ start) (hhigh : low ≤ high) :
    ∀ sample ∈ stepsUpTo start step high taken, low ≤ sample ∧ sample ≤ high := by
  intro sample hsample
  rcases List.mem_append.1 hsample with hmem | hmem
  · obtain ⟨i, hi, rfl⟩ := List.mem_map.1 hmem
    have hsteps : 0 ≤ step * i := by positivity
    exact ⟨by linarith, (h.below i (List.mem_range.1 hi)).le⟩
  · rw [List.mem_singleton.1 hmem]
    exact ⟨hhigh, le_rfl⟩

theorem head?_eq (h : 1 < (stepsUpTo start step high taken).length) :
    (stepsUpTo start step high taken).head? = some start := by
  cases taken with
  | zero => simp [stepsUpTo] at h
  | succ taken => simp [stepsUpTo, List.range_succ_eq_map]

/--
After the last of the steps one step is left at most, or what the start has left of two.
-/
theorem high_sub_le (h : Sampling start step high limit taken) (hhigh : high ≤ step * limit)
    {i : Nat} (hi : i + 1 = taken) :
    high - (start + step * i) ≤ max step (2 * step - start) := by
  rw [le_max_iff]
  rcases h.stopped with hlimit | ⟨_, hnext⟩
  · have hsteps : (limit : ℚ) = i + 2 := by
      rw [← hlimit, ← hi]
      push_cast
      ring
    rw [hsteps] at hhigh
    exact .inr (by linarith)
  · have hsteps : (taken : ℚ) = i + 1 := by exact_mod_cast hi.symm
    rw [hsteps] at hnext
    exact .inl (by linarith)

theorem isChain_sub {p : ℚ → Prop} (h : Sampling start step high limit taken)
    (hhigh : high ≤ step * limit) (hstep : p step)
    (hlast : ∀ gap ≤ max step (2 * step - start), p gap) :
    (stepsUpTo start step high taken).IsChain fun a b => p (b - a) := by
  refine .append ?_ (.singleton high) ?_
  · rw [List.isChain_map, List.isChain_range]
    intro i _
    have hgap : start + step * (i + 1 : Nat) - (start + step * i) = step := by
      push_cast
      ring
    rwa [hgap]
  · cases taken with
    | zero => simp
    | succ i => simpa [List.range_succ] using hlast _ (h.high_sub_le hhigh rfl)

end Sampling

structure CoversInSteps (low high step : ℚ) (samples : List ℚ) : Prop where
  ascends : samples.Pairwise (· < ·)
  within : ∀ sample ∈ samples, low ≤ sample ∧ sample ≤ high
  last : samples.getLast? = some high
  /-- The first of several samples is the lower end if that is positive, and one step if not. -/
  first : 1 < samples.length → samples.head? = some (if 0 < low then low else step)
  /-- Steps from zero leave no gap that is longer than a step. -/
  gaps_of_nonpos : low ≤ 0 → samples.IsChain fun a b => b - a ≤ step
  /-- Steps from a positive quantity leave no gap as long as two steps. -/
  gaps_of_pos : 0 < low → samples.IsChain fun a b => b - a < 2 * step

/--
There are samples, at most as many as are asked for and at most a hundred, and they cover the
quantities in whole steps. A step is as short as that number of samples allows, but at least one.
-/
theorem samplePoints_cover {low high : ℚ} (h : low ≤ high) (count : Nat) :
    1 ≤ (samplePoints low high count).length ∧
    (samplePoints low high count).length ≤ sampleLimit count ∧
    CoversInSteps low high (sampleStep high (sampleLimit count)) (samplePoints low high count) := by
  generalize hstep : sampleStep high (sampleLimit count) = step
  generalize hstart : (if 0 < low then low else step) = start
  obtain ⟨taken, heq, hsampling⟩ := exists_sampling low high count hstep.symm hstart.symm
  have hone : 1 ≤ step := hstep ▸ one_le_sampleStep ..
  have hhigh : high ≤ step * sampleLimit count :=
    hstep ▸ le_sampleStep_mul high (one_le_sampleLimit count)
  rw [heq]
  refine ⟨by simp [stepsUpTo], hsampling.length_le, ?_⟩
  constructor
  · exact hsampling.pairwise_lt (by linarith)
  · apply hsampling.mem_between (by linarith) ?_ h
    rw [← hstart]
    split <;> linarith
  · simp [stepsUpTo]
  · intro hlength
    rw [hstart]
    exact Sampling.head?_eq hlength
  · intro hnonpos
    -- The start is itself a step from zero, so the rest at the end is a step as well.
    have hrest : max step (2 * step - start) = step := by
      rw [← hstart, if_neg hnonpos.not_gt, two_mul, add_sub_cancel_right, max_self]
    apply hsampling.isChain_sub (p := (· ≤ step)) hhigh le_rfl
    intro gap hgap
    exact hgap.trans_eq hrest
  · intro hpos
    apply hsampling.isChain_sub (p := (· < 2 * step)) hhigh (by linarith)
    intro gap hgap
    refine hgap.trans_lt (max_lt (by linarith) ?_)
    rw [← hstart, if_pos hpos]
    linarith

/--
Five samples from a half to fifteen: the rest at the end is longer than a step, and not as long as
two.
-/
theorem samplePoints_cover_fifteen :
    samplePoints (1 / 2 : ℚ) 15 5 = [1 / 2, 7 / 2, 13 / 2, 19 / 2, 15] ∧
    sampleStep 15 (sampleLimit 5) = 3 ∧ (1 / 2 : ℚ) ≤ 15 ∧
    5 ≤ sampleLimit 5 ∧ CoversInSteps (1 / 2) 15 3 [1 / 2, 7 / 2, 13 / 2, 19 / 2, 15] := by
  have hsamples : samplePoints (1 / 2 : ℚ) 15 5 = [1 / 2, 7 / 2, 13 / 2, 19 / 2, 15] := by
    decide +kernel
  have hstep : sampleStep 15 (sampleLimit 5) = 3 := by decide +kernel
  have hle : (1 / 2 : ℚ) ≤ 15 := by norm_num
  obtain ⟨_, hlength, hcovers⟩ := samplePoints_cover hle 5
  rw [hsamples] at hlength hcovers
  rw [hstep] at hcovers
  exact ⟨hsamples, hstep, hle, hlength, hcovers⟩

end Tariff
