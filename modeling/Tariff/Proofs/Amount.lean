import Mathlib.Data.Prod.Lex
import Tariff.Amount

/-!
This module contains the laws of comparison that the order of rows rests on, the proof that `Float`
obeys them, and what follows for the least value of a list.
-/

namespace Tariff

/--
The laws of comparison. Defined values are in a line, in which two of them may share a place as the
two zeros do, and the undefined value compares with nothing.
-/
class LawfulAmount (α : Type) [Amount α] : Prop where
  defined_of_le : ∀ {a b : α}, a ≤ b → Amount.isNaN a = false ∧ Amount.isNaN b = false
  le_total : ∀ {a b : α}, Amount.isNaN a = false → Amount.isNaN b = false → a ≤ b ∨ b ≤ a
  le_trans : ∀ {a b c : α}, a ≤ b → b ≤ c → a ≤ c
  lt_iff_le_not_ge : ∀ {a b : α}, a < b ↔ a ≤ b ∧ ¬b ≤ a
  zero_defined : Amount.isNaN (Amount.zero : α) = false

namespace Amount

/--
Two values are equal as numbers, as the two zeros are.
-/
def SamePlace {α : Type} [Amount α] (a b : α) : Prop :=
  a ≤ b ∧ b ≤ a

section Line

open Float.Model

/--
The place of a floating-point number on the line of all defined ones: first by sign and being
infinite, then by exponent and mantissa.
-/
def place : UnpackedFloat → Option (Int ×ₗ Int ×ₗ Int)
  | .notANumber => none
  | .infinity .negative => some (toLex (-2, toLex (0, 0)))
  | .finite .negative m e _ => some (toLex (-1, toLex (-e, -m)))
  | .zero _ => some (toLex (0, toLex (0, 0)))
  | .finite .positive m e _ => some (toLex (1, toLex (e, m)))
  | .infinity .positive => some (toLex (2, toLex (0, 0)))

theorem isNaN_eq_isNone_place (x : UnpackedFloat) : x.isNaN = (place x).isNone := by
  rcases x with ⟨_ | _⟩ | _ | _ | ⟨_ | _, m, e, _⟩
  all_goals rfl

theorem compare_sign (s t : UnpackedFloat.Sign) :
    compare s t = compare (s.apply 1) (t.apply 1) := by
  cases s <;> cases t <;> rfl

theorem le_iff_place (x y : UnpackedFloat) :
    x.le y = true ↔ ∃ p q, place x = some p ∧ place y = some q ∧ p ≤ q := by
  unfold UnpackedFloat.le
  rcases x with ⟨_ | _⟩ | _ | _ | ⟨_ | _, m₁, e₁, _⟩
  all_goals
    rcases y with ⟨_ | _⟩ | _ | _ | ⟨_ | _, m₂, e₂, _⟩
    all_goals
      dsimp only [UnpackedFloat.compare, place]
      simp [compare_sign, UnpackedFloat.Sign.apply, Prod.Lex.toLex_le_toLex, -Ordering.isLE_swap,
        Ordering.swap_then, Int.compare_swap, Nat.compare_swap, Ordering.isLE_then_iff_or,
        Int.compare_eq_lt, Nat.isLE_compare, Int.isLE_compare]
  case finite.negative.finite.negative =>
    rw [@eq_comm _ e₁ e₂]

theorem lt_iff_place (x y : UnpackedFloat) :
    x.lt y = true ↔ ∃ p q, place x = some p ∧ place y = some q ∧ p < q := by
  unfold UnpackedFloat.lt
  rcases x with ⟨_ | _⟩ | _ | _ | ⟨_ | _, m₁, e₁, _⟩
  all_goals
    rcases y with ⟨_ | _⟩ | _ | _ | ⟨_ | _, m₂, e₂, _⟩
    all_goals
      dsimp only [UnpackedFloat.compare, place]
      simp [compare_sign, UnpackedFloat.Sign.apply, Prod.Lex.toLex_lt_toLex, Ordering.then_eq_lt,
        Ordering.then_eq_gt, Int.compare_eq_lt, Int.compare_eq_gt, Nat.compare_eq_lt,
        Nat.compare_eq_gt]

theorem beq_iff_place (x y : UnpackedFloat) :
    x.beq y = true ↔ ∃ p, place x = some p ∧ place y = some p := by
  unfold UnpackedFloat.beq
  rcases x with ⟨_ | _⟩ | _ | _ | ⟨_ | _, m₁, e₁, _⟩
  all_goals
    rcases y with ⟨_ | _⟩ | _ | _ | ⟨_ | _, m₂, e₂, _⟩
    all_goals
      dsimp only [UnpackedFloat.compare, place]
      simp [compare_sign, UnpackedFloat.Sign.apply, Ordering.swap_then, Int.compare_swap,
        Nat.compare_swap, Ordering.then_eq_eq]
  all_goals omega

theorem float_le_iff (a b : Float) :
    a ≤ b ↔ ∃ p q, place a.toModel.unpack = some p ∧ place b.toModel.unpack = some q ∧ p ≤ q := by
  rw [← le_iff_place]
  exact decide_eq_true_iff

theorem float_lt_iff (a b : Float) :
    a < b ↔ ∃ p q, place a.toModel.unpack = some p ∧ place b.toModel.unpack = some q ∧ p < q := by
  rw [← lt_iff_place]
  exact decide_eq_true_iff

theorem float_beq_iff (a b : Float) :
    (a == b) = true ↔ ∃ p, place a.toModel.unpack = some p ∧ place b.toModel.unpack = some p :=
  beq_iff_place _ _

theorem samePlace_iff_beq (a b : Float) : SamePlace a b ↔ (a == b) = true := by
  unfold SamePlace
  rw [float_beq_iff, float_le_iff, float_le_iff]
  constructor
  · rintro ⟨⟨p, q, hp, hq, hpq⟩, ⟨q', p', hq', hp', hqp⟩⟩
    obtain rfl : p = p' := Option.some.inj (hp.symm.trans hp')
    obtain rfl : q = q' := Option.some.inj (hq.symm.trans hq')
    exact ⟨p, hp, hpq.antisymm hqp ▸ hq⟩
  · rintro ⟨p, hp, hq⟩
    exact ⟨⟨p, p, hp, hq, le_rfl⟩, ⟨p, p, hq, hp, le_rfl⟩⟩

theorem float_isNaN_eq_false_iff (a : Float) :
    isNaN a = false ↔ ∃ p, place a.toModel.unpack = some p := by
  rw [← Option.isSome_iff_exists, ← Option.isNone_eq_false_iff, ← isNaN_eq_isNone_place]
  rfl

instance : LawfulAmount Float where
  defined_of_le := by
    intro a b h
    obtain ⟨p, q, hp, hq, _⟩ := (float_le_iff a b).1 h
    exact ⟨(float_isNaN_eq_false_iff a).2 ⟨p, hp⟩, (float_isNaN_eq_false_iff b).2 ⟨q, hq⟩⟩
  le_total := by
    intro a b ha hb
    obtain ⟨p, hp⟩ := (float_isNaN_eq_false_iff a).1 ha
    obtain ⟨q, hq⟩ := (float_isNaN_eq_false_iff b).1 hb
    rcases Std.le_total (a := p) (b := q) with h | h
    · exact .inl ((float_le_iff a b).2 ⟨p, q, hp, hq, h⟩)
    · exact .inr ((float_le_iff b a).2 ⟨q, p, hq, hp, h⟩)
  le_trans := by
    intro a b c hab hbc
    obtain ⟨p, q, hp, hq, hpq⟩ := (float_le_iff a b).1 hab
    obtain ⟨q', r, hq', hr, hqr⟩ := (float_le_iff b c).1 hbc
    obtain rfl : q = q' := Option.some.inj (hq.symm.trans hq')
    exact (float_le_iff a c).2 ⟨p, r, hp, hr, hpq.trans hqr⟩
  lt_iff_le_not_ge := by
    intro a b
    simp only [float_lt_iff, float_le_iff]
    constructor
    · rintro ⟨p, q, hp, hq, hpq⟩
      refine ⟨⟨p, q, hp, hq, hpq.le⟩, ?_⟩
      rintro ⟨q', p', hq', hp', hqp⟩
      obtain rfl : p = p' := Option.some.inj (hp.symm.trans hp')
      obtain rfl : q = q' := Option.some.inj (hq.symm.trans hq')
      exact hpq.not_ge hqp
    · rintro ⟨⟨p, q, hp, hq, _⟩, h⟩
      exact ⟨p, q, hp, hq, lt_of_not_ge fun hqp => h ⟨q, p, hq, hp, hqp⟩⟩
  zero_defined := by decide +kernel

end Line

section Order

variable {α : Type} [Amount α] {a b c x : α} {xs : List α}

theorem isNaN_lesser (ha : isNaN a = false) (hb : isNaN b = false) :
    isNaN (lesser a b) = false := by
  unfold lesser
  split
  · exact hb
  · exact ha

variable [LawfulAmount α]

theorem le_refl (ha : isNaN a = false) : a ≤ a :=
  or_self_iff.1 (LawfulAmount.le_total ha ha)

theorem not_le_of_lt (h : a < b) : ¬b ≤ a :=
  (LawfulAmount.lt_iff_le_not_ge.1 h).2

theorem le_of_lt (h : a < b) : a ≤ b :=
  (LawfulAmount.lt_iff_le_not_ge.1 h).1

theorem lt_of_lt_of_le (hab : a < b) (hbc : b ≤ c) : a < c := by
  rw [LawfulAmount.lt_iff_le_not_ge]
  refine ⟨LawfulAmount.le_trans (le_of_lt hab) hbc, ?_⟩
  intro hca
  exact not_le_of_lt hab (LawfulAmount.le_trans hbc hca)

theorem le_of_not_lt (ha : isNaN a = false) (hb : isNaN b = false) (h : ¬b < a) : a ≤ b := by
  rcases LawfulAmount.le_total ha hb with hab | hba
  · exact hab
  · by_contra hnle
    exact h (LawfulAmount.lt_iff_le_not_ge.2 ⟨hba, hnle⟩)

theorem not_lt_iff (ha : isNaN a = false) (hb : isNaN b = false) : ¬b < a ↔ a ≤ b :=
  ⟨le_of_not_lt ha hb, fun h hba => not_le_of_lt hba h⟩

theorem not_le_iff (ha : isNaN a = false) (hb : isNaN b = false) : ¬b ≤ a ↔ a < b := by
  rw [LawfulAmount.lt_iff_le_not_ge]
  constructor
  · intro h
    exact ⟨(LawfulAmount.le_total ha hb).resolve_right h, h⟩
  · intro h
    exact h.2

theorem SamePlace.le_iff (h : SamePlace a b) : a ≤ x ↔ b ≤ x :=
  ⟨LawfulAmount.le_trans h.2, LawfulAmount.le_trans h.1⟩

theorem SamePlace.ge_iff (h : SamePlace a b) : x ≤ a ↔ x ≤ b :=
  ⟨fun hx => LawfulAmount.le_trans hx h.1, fun hx => LawfulAmount.le_trans hx h.2⟩

theorem lt_lesser_iff (ha : isNaN a = false) (hb : isNaN b = false) :
    x < lesser a b ↔ x < a ∧ x < b := by
  unfold lesser
  by_cases h : b < a
  · simp only [ha, h, decide_true, Bool.or_true, ↓reduceIte]
    exact ⟨fun hx => ⟨lt_of_lt_of_le hx (le_of_lt h), hx⟩, fun hx => hx.2⟩
  · simp only [ha, h, decide_false, Bool.or_false, Bool.false_eq_true, ↓reduceIte]
    exact ⟨fun hx => ⟨hx, lt_of_lt_of_le hx (le_of_not_lt ha hb h)⟩, fun hx => hx.1⟩

theorem lt_foldl_lesser_iff (ha : isNaN a = false) (hxs : ∀ b ∈ xs, isNaN b = false) :
    x < xs.foldl lesser a ↔ x < a ∧ ∀ b ∈ xs, x < b := by
  induction xs generalizing a with
  | nil => simp
  | cons b xs ih =>
    have hb := hxs b List.mem_cons_self
    rw [List.foldl_cons]
    rw [ih (isNaN_lesser ha hb) fun c hc => hxs c (List.mem_cons_of_mem _ hc)]
    rw [lt_lesser_iff ha hb, List.forall_mem_cons, and_assoc]

theorem lt_least_iff (h : ∃ a ∈ xs, isNaN a = false) :
    x < least xs ↔ ∀ a ∈ xs, isNaN a = false → x < a := by
  have hdefined : ∀ a ∈ xs.filter (!isNaN ·), isNaN a = false := by
    intro a ha
    simpa using (List.mem_filter.1 ha).2
  have hiff : (∀ a ∈ xs, isNaN a = false → x < a) ↔ ∀ a ∈ xs.filter (!isNaN ·), x < a := by
    simp [List.mem_filter]
  rw [hiff]
  -- The undefined values are dropped before the fold, which starts at the first of the others.
  unfold least
  split
  next hnil =>
    obtain ⟨a, ha, hna⟩ := h
    have : a ∈ xs.filter (!isNaN ·) := by simp [List.mem_filter, ha, hna]
    simp [hnil] at this
  next a as hcons =>
    rw [hcons] at hdefined
    rw [hcons, List.forall_mem_cons]
    rw [lt_foldl_lesser_iff (hdefined a List.mem_cons_self)]
    intro b hb
    exact hdefined b (List.mem_cons_of_mem _ hb)

end Order

end Amount

end Tariff
