import Tariff.Proofs.Exact
import Tariff.Proofs.Reading
import Tariff.Proofs.ThresholdLookup

/-!
This module contains what the curve of a three part script looks like in exact arithmetic. A price
on it lies between the fees of its row and of the row before, so the switch from one row to the next
never makes it fall.
-/

namespace Tariff

/--
The units up to a number for a fee, and an overage for each unit above.
-/
structure Plan where
  upTo : ℚ
  fee : ℚ
  overage : ℚ

namespace Plan

def beyond (plan : Plan) (quantity : ℚ) : ℚ :=
  plan.fee + plan.overage * (quantity - plan.upTo)

/--
The price of a quantity in the plan at a position: its fee, unless the plan before charges less for
the quantity.
-/
def capped (plan : Plan) (plans : List Plan) (quantity : ℚ) : (index : Nat) → ℚ
  | 0 => plan.fee
  | index + 1 =>
    match plans[index]? with
    | none => plan.fee
    | some before => min plan.fee (before.beyond quantity)

def price (plan : Plan) (plans : List Plan) (quantity : ℚ) (index : Nat) : (mode : Mode) → ℚ
  | .exact => plan.fee
  | .curve => plan.capped plans quantity index

variable {plans : List Plan} {plan plan' before : Plan} {quantity quantity' : ℚ}
  {index index' : Nat}

theorem beyond_mono (h : 0 ≤ plan.overage) (hle : quantity ≤ quantity') :
    plan.beyond quantity ≤ plan.beyond quantity' := by
  unfold beyond
  gcongr

theorem fee_le_beyond (h : 0 ≤ plan.overage) (hle : plan.upTo ≤ quantity) :
    plan.fee ≤ plan.beyond quantity :=
  le_add_of_nonneg_right (mul_nonneg h (sub_nonneg.2 hle))

theorem capped_le_fee : plan.capped plans quantity index ≤ plan.fee := by
  unfold capped
  split
  · exact le_rfl
  · split
    · exact le_rfl
    · exact min_le_left ..

theorem capped_mono_quantity (hnonneg : ∀ plan ∈ plans, 0 ≤ plan.overage)
    (hle : quantity ≤ quantity') :
    plan.capped plans quantity index ≤ plan.capped plans quantity' index := by
  unfold capped
  split
  · exact le_rfl
  next index =>
    split
    · exact le_rfl
    next before hbefore =>
      exact min_le_min le_rfl (beyond_mono (hnonneg before (List.mem_of_getElem? hbefore)) hle)

theorem fee_mono (hfees : plans.Pairwise (·.fee ≤ ·.fee)) (hplan : plans[index]? = some plan)
    (hplan' : plans[index']? = some plan') (hle : index ≤ index') : plan.fee ≤ plan'.fee := by
  obtain ⟨hlt, rfl⟩ := List.getElem?_eq_some_iff.1 hplan
  obtain ⟨hlt', rfl⟩ := List.getElem?_eq_some_iff.1 hplan'
  rcases Nat.lt_or_eq_of_le hle with hbelow | rfl
  · exact List.pairwise_iff_getElem.1 hfees index index' hlt hlt' hbelow
  · exact le_rfl

theorem fee_le_capped (hfees : plans.Pairwise (·.fee ≤ ·.fee))
    (hnonneg : ∀ plan ∈ plans, 0 ≤ plan.overage) (hbefore : plans[index]? = some before)
    (hplan : plans[index + 1]? = some plan) (hle : before.upTo ≤ quantity) :
    before.fee ≤ plan.capped plans quantity (index + 1) := by
  rw [capped, hbefore]
  exact le_min (fee_mono hfees hbefore hplan (Nat.le_succ index))
    (fee_le_beyond (hnonneg before (List.mem_of_getElem? hbefore)) hle)

/--
A larger quantity, in the same plan or in one after, does not cost less.
-/
theorem capped_mono (hfees : plans.Pairwise (·.fee ≤ ·.fee))
    (hnonneg : ∀ plan ∈ plans, 0 ≤ plan.overage) (hplan : plans[index]? = some plan)
    (hplan' : plans[index']? = some plan')
    (hbracket : IsBracket (plans.map (·.upTo)) quantity' index') (hindex : index ≤ index')
    (hle : quantity ≤ quantity') :
    plan.capped plans quantity index ≤ plan'.capped plans quantity' index' := by
  rcases Nat.lt_or_eq_of_le hindex with hbelow | rfl
  · obtain ⟨index', rfl⟩ := Nat.exists_eq_succ_of_ne_zero (Nat.ne_zero_of_lt hbelow)
    -- The fee of the plan before the second one separates the two prices.
    rcases hbracket.lower with hzero | ⟨bound, hbound, habove⟩
    · cases hzero
    · rw [Nat.succ_sub_one, List.getElem?_map] at hbound
      obtain ⟨before, hbefore, rfl⟩ := Option.map_eq_some_iff.1 hbound
      calc plan.capped plans quantity index
        _ ≤ plan.fee := capped_le_fee
        _ ≤ before.fee := fee_mono hfees hplan hbefore (Nat.le_of_lt_succ hbelow)
        _ ≤ plan'.capped plans quantity' (index' + 1) :=
          fee_le_capped hfees hnonneg hbefore hplan' habove.le
  · obtain rfl : plan = plan' := Option.some.inj (hplan.symm.trans hplan')
    exact capped_mono_quantity hnonneg hle

end Plan

namespace Script

variable {table : RateTable ℚ} {discounted : Option ℚ} {thresholdKey feeKey overageKey : String}
  {quantity : ℚ} {plans : List Plan} {budget : Nat} {mode : Mode} {hit : Hit ℚ}

/--
A row offers a plan: a script reads the plan's numbers in it.
-/
structure Offers (table : RateTable ℚ) (discounted : Option ℚ)
    (thresholdKey feeKey overageKey : String) (row : Row ℚ) (plan : Plan) : Prop where
  upTo : reading? table discounted thresholdKey row = some plan.upTo
  fee : reading? table discounted feeKey row = some plan.fee
  overage : reading? table discounted overageKey row = some plan.overage

theorem exists_plans {rows : List (Row ℚ)} {bounds fees overages : List ℚ}
    (hbounds : List.Forall₂ (fun row bound =>
      reading? table discounted thresholdKey row = some bound) rows bounds)
    (hfees : List.Forall₂ (fun row fee =>
      reading? table discounted feeKey row = some fee) rows fees)
    (hoverages : List.Forall₂ (fun row overage =>
      reading? table discounted overageKey row = some overage) rows overages) :
    ∃ plans : List Plan, plans.map (·.upTo) = bounds ∧ plans.map (·.fee) = fees ∧
      plans.map (·.overage) = overages ∧
      List.Forall₂ (Offers table discounted thresholdKey feeKey overageKey) rows plans := by
  induction hbounds generalizing fees overages with
  | nil =>
    cases hfees
    cases hoverages
    exact ⟨[], rfl, rfl, rfl, .nil⟩
  | cons hbound _ ih =>
    cases hfees with
    | cons hfee hfees =>
      cases hoverages with
      | cons hoverage hoverages =>
        obtain ⟨plans, rfl, rfl, rfl, hoffers⟩ := ih hfees hoverages
        exact ⟨⟨_, _, _⟩ :: plans, rfl, rfl, rfl, .cons ⟨hbound, hfee, hoverage⟩ hoffers⟩

theorem exists_plan_prices
    (hoffers : List.Forall₂ (Offers table discounted thresholdKey feeKey overageKey) table.rows
      plans)
    (hbudget : 2 ≤ budget) (hresolve : table.resolve thresholdKey quantity mode = .ok (some hit)) :
    ∃ plan, plans[hit.index]? = some plan ∧ ∀ mode,
      (threePartCurve thresholdKey feeKey overageKey).Prices table mode budget discounted quantity
        hit (plan.price plans quantity hit.index mode) := by
  obtain ⟨left, rfl⟩ := Nat.exists_eq_add_of_le' hbudget
  have hrow := RateTable.getElem?_of_resolve_eq_ok hresolve
  obtain ⟨plan, hplan, hoffer⟩ := exists_getElem?_of_forall₂ hoffers hrow
  refine ⟨plan, hplan, ?_⟩
  intro mode
  have hfound := RateTable.resolve_congr_mode hresolve mode
  refine ⟨hfound, ?_⟩
  unfold evaluate
  simp only [hfound, ok_bind, step, field_eq_ok hoffer.fee]
  obtain ⟨index, row⟩ := hit
  cases mode with
  | exact => rfl
  | curve =>
    cases index with
    | zero => rfl
    | succ index =>
      have hlt := RateTable.index_lt_of_resolve_eq_ok hresolve
      have hbefore := List.getElem?_eq_getElem (Nat.lt_of_succ_lt hlt)
      obtain ⟨before, hplan', hoffer'⟩ := exists_getElem?_of_forall₂ hoffers hbefore
      simp only [hbefore, ok_bind, field_eq_ok hoffer'.fee, field_eq_ok hoffer'.overage,
        field_eq_ok hoffer'.upTo, Plan.price, Plan.capped, hplan', ← Amount.lesser_eq_min]
      rfl

variable {fees overages : List ℚ}

theorem exists_offers (hvalid : table.validate = .ok ())
    (hscript : (threePartCurve thresholdKey feeKey overageKey).validate table = .ok ())
    (hfees : table.rows.map (reading? table discounted feeKey) = fees.map some)
    (hoverages : table.rows.map (reading? table discounted overageKey) = overages.map some) :
    ∃ plans : List Plan, plans.map (·.fee) = fees ∧ plans.map (·.overage) = overages ∧
      List.Forall₂ (Offers table discounted thresholdKey feeKey overageKey) table.rows plans ∧
      (plans.map (·.upTo)).Pairwise (· < ·) ∧
      ∀ quantity mode hit, table.resolve thresholdKey quantity mode = .ok (some hit) →
        IsBracket (plans.map (·.upTo)) quantity hit.index := by
  by_cases hrows : table.rows = []
  · rw [hrows] at hfees hoverages
    refine ⟨[], (List.map_eq_nil_iff.1 hfees.symm).symm,
      (List.map_eq_nil_iff.1 hoverages.symm).symm, hrows ▸ .nil, .nil, ?_⟩
    intro quantity mode hit hresolve
    exact (RateTable.rows_ne_nil_of_resolve_eq_ok hresolve hrows).elim
  have hkeys := (table.validate_eq_ok_iff.1 hvalid).1
  have hkind : table.kind? thresholdKey = some .threshold := by
    simpa [RateTable.has_iff hkeys] using ((validate_eq_ok_iff hkeys _).1 hscript).1
  have hdefined : table.ThresholdsDefined thresholdKey := fun _ _ _ _ => rfl
  obtain ⟨bounds, first, last, h⟩ :=
    RateTable.exists_hasThresholds hvalid hkind hdefined hrows
  have hbounds : table.rows.map (reading? table discounted thresholdKey) = bounds.map some := by
    rw [← h.rows]
    exact List.map_congr_left fun row _ => reading?_of_kind? hkind rfl discounted row
  obtain ⟨plans, rfl, hfees, hoverages, hoffers⟩ := exists_plans (forall₂_of_map_eq hbounds)
    (forall₂_of_map_eq hfees) (forall₂_of_map_eq hoverages)
  refine ⟨plans, hfees, hoverages, hoffers, h.ascends, ?_⟩
  intro quantity mode hit hresolve
  exact (h.resolve_eq_ok_iff.1 hresolve).2.2

/--
A price on the curve is at most the fee that is quoted for the quantity, which is the one of its
row, and it is that fee in the first row. If the fees do not fall from row to row and no overage is
negative, the curve never falls.
-/
theorem threePartCurve_caps_and_ascends (hvalid : table.validate = .ok ())
    (hscript : (threePartCurve thresholdKey feeKey overageKey).validate table = .ok ())
    (hfees : table.rows.map (reading? table discounted feeKey) = fees.map some)
    (hoverages : table.rows.map (reading? table discounted overageKey) = overages.map some)
    (hbudget : 2 ≤ budget) :
    (∀ quantity mode hit, table.resolve thresholdKey quantity mode = .ok (some hit) →
      ∃ fee capped, fees[hit.index]? = some fee ∧
        (threePartCurve thresholdKey feeKey overageKey).Prices table .exact budget discounted
          quantity hit fee ∧
        (threePartCurve thresholdKey feeKey overageKey).Prices table .curve budget discounted
          quantity hit capped ∧
        capped ≤ fee ∧ (hit.index = 0 → capped = fee)) ∧
    (fees.Pairwise (· ≤ ·) → (∀ overage ∈ overages, 0 ≤ overage) →
      ∀ quantity quantity' hit hit' price price', quantity ≤ quantity' →
        (threePartCurve thresholdKey feeKey overageKey).Prices table .curve budget discounted
          quantity hit price →
        (threePartCurve thresholdKey feeKey overageKey).Prices table .curve budget discounted
          quantity' hit' price' →
        price ≤ price') := by
  obtain ⟨plans, rfl, rfl, hoffers, hbounds, hbracket⟩ :=
    exists_offers hvalid hscript hfees hoverages
  constructor
  · intro quantity mode hit hresolve
    obtain ⟨plan, hplan, hprices⟩ := exists_plan_prices hoffers hbudget hresolve
    refine ⟨plan.fee, plan.capped plans quantity hit.index, ?_, hprices .exact, hprices .curve,
      Plan.capped_le_fee, ?_⟩
    · rw [List.getElem?_map, hplan]
      rfl
    · intro hzero
      rw [hzero]
      rfl
  · intro hascend hnonneg quantity quantity' hit hit' price price' hle hprice hprice'
    obtain ⟨plan, hplan, hprices⟩ := exists_plan_prices hoffers hbudget hprice.found
    obtain ⟨plan', hplan', hprices'⟩ := exists_plan_prices hoffers hbudget hprice'.found
    rw [hprice.unique (hprices .curve), hprice'.unique (hprices' .curve)]
    have hindex := hbracket quantity .curve hit hprice.found
    have hindex' := hbracket quantity' .curve hit' hprice'.found
    exact Plan.capped_mono (List.pairwise_map.1 hascend) (List.forall_mem_map.1 hnonneg) hplan
      hplan' hindex' (hindex.mono hbounds hle hindex') hle

theorem threePartCurve_caps_plans :
    RateTable.plans.validate = .ok () ∧
    (threePartCurve "upto" "fee" "overage").validate RateTable.plans = .ok () ∧
    RateTable.plans.rows.map (reading? .plans none "fee") = [100, 150, 180].map some ∧
    RateTable.plans.rows.map (reading? .plans none "overage") = [4, 2, 1].map some ∧
    ∃ hit hit', (threePartCurve "upto" "fee" "overage").Prices .plans .exact 2 none 5 hit 150 ∧
      (threePartCurve "upto" "fee" "overage").Prices .plans .curve 2 none 5 hit 140 ∧
      (threePartCurve "upto" "fee" "overage").Prices .plans .curve 2 none 15 hit' 160 ∧
      (140 : ℚ) ≤ 150 ∧ (140 : ℚ) ≤ 160 := by
  have hvalid : RateTable.plans.validate = .ok () := eq_ok_of_isOk (by decide +kernel)
  have hscript : (threePartCurve "upto" "fee" "overage").validate RateTable.plans = .ok () :=
    eq_ok_of_isOk (by decide +kernel)
  have hfees : RateTable.plans.rows.map (reading? .plans none "fee") =
      [100, 150, 180].map some := by decide +kernel
  have hoverages : RateTable.plans.rows.map (reading? .plans none "overage") =
      [4, 2, 1].map some := by decide +kernel
  obtain ⟨hcaps, hascends⟩ :=
    threePartCurve_caps_and_ascends hvalid hscript hfees hoverages le_rfl
  obtain ⟨hit, hprice⟩ : ∃ hit,
      (threePartCurve "upto" "fee" "overage").Prices .plans .curve 2 none 5 hit 140 :=
    exists_prices (by decide +kernel) (by decide +kernel)
  obtain ⟨hit', hprice'⟩ : ∃ hit,
      (threePartCurve "upto" "fee" "overage").Prices .plans .curve 2 none 15 hit 160 :=
    exists_prices (by decide +kernel) (by decide +kernel)
  obtain ⟨_, hquote⟩ : ∃ hit,
      (threePartCurve "upto" "fee" "overage").Prices .plans .exact 2 none 5 hit 150 :=
    exists_prices (by decide +kernel) (by decide +kernel)
  obtain ⟨fee, capped, _, hexact, hcurve, hle, _⟩ := hcaps 5 .curve hit hprice.found
  obtain rfl : capped = 140 := hcurve.unique hprice
  obtain rfl : fee = 150 := hexact.unique hquote
  have hmono := hascends (by decide +kernel) (by decide +kernel) 5 15 hit hit' 140 160
    (by norm_num) hprice hprice'
  exact ⟨hvalid, hscript, hfees, hoverages, hit, hit', hexact, hprice, hprice', hle, hmono⟩

end Script

end Tariff
