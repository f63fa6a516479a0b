import Tariff.Engine
import Tariff.Proofs.Hull
import Tariff.Proofs.KeyMap
import Tariff.Proofs.Samples

/-!
This module contains the shape of curves: which samples they have and whose prices. The samples
ascend through the domain of the tiers unless that goes on forever.
-/

namespace Tariff

/--
The samples of a curve ascend and are numbers within a domain.
-/
def CurvePoint.AscendWithin {α : Type} [Amount α] (domain : Range α)
    (points : List (CurvePoint α)) : Prop :=
  points.Pairwise (·.sample < ·.sample) ∧
    ∀ point ∈ points, Amount.isNaN point.sample = false ∧
      domain.low ≤ point.sample ∧ point.sample ≤ domain.high

instance {α : Type} [Amount α] (domain : Range α) (points : List (CurvePoint α)) :
    Decidable (CurvePoint.AscendWithin domain points) :=
  inferInstanceAs (Decidable (_ ∧ _))

section Render

variable {evaluator : Evaluator} {count : Nat} {tiers : List (Tier Float)}
  {addons : List (Addon Float × Float)} {domain : Range Float}

/--
There is nothing left to sort: the samples are in order from the start.
-/
theorem renderCurve_of_domain (h : Tier.domain? tiers = some domain)
    (hle : domain.low ≤ domain.high) :
    renderCurve evaluator count tiers addons =
      (samplePoints domain.low domain.high count).map (curvePoint evaluator tiers addons) := by
  unfold renderCurve
  rw [h]
  apply List.mergeSort_of_pairwise
  rw [List.pairwise_map]
  exact samplePoints_sorted hle

theorem ascendWithin_samplePoints_iff (hle : domain.low ≤ domain.high) :
    CurvePoint.AscendWithin domain
        ((samplePoints domain.low domain.high count).map (curvePoint evaluator tiers addons)) ↔
      domain.high < Amount.top ∨ count ≤ 1 := by
  rw [Binary64.lt_top_iff (LawfulAmount.defined_of_le hle).2]
  unfold CurvePoint.AscendWithin
  rw [List.pairwise_map, List.forall_mem_map]
  constructor
  · rintro ⟨_, hwithin⟩
    by_contra h
    rw [not_or, not_not, not_le] at h
    obtain ⟨first, hfirst, hsamples⟩ := samplePoints_of_isInfinite domain.low h.1 h.2
    rw [hsamples] at hwithin
    exact Bool.false_ne_true ((hwithin first List.mem_cons_self).1.symm.trans hfirst)
  · intro h
    obtain ⟨hascend, hwithin⟩ := samplePoints_ascend hle h.symm
    refine ⟨hascend, ?_⟩
    intro sample hmem
    obtain ⟨hlow, hhigh⟩ := hwithin sample hmem
    exact ⟨(LawfulAmount.defined_of_le hlow).2, hlow, hhigh⟩

end Render

section Tiers

variable {α : Type}

theorem PricingModel.checkNames_eq_ok {before tiers : List (Tier α)}
    (h : (checkNames before tiers : Except (ConfigFault α) Unit) = .ok ()) :
    tiers.Pairwise (·.id ≠ ·.id) ∧ ∀ tier ∈ tiers, ∀ other ∈ before, other.id ≠ tier.id := by
  induction tiers generalizing before with
  | nil => simp
  | cons tier tiers ih =>
    unfold checkNames at h
    split at h
    next => cases h
    next hid =>
      split at h
      next => cases h
      next =>
        obtain ⟨hpairs, hbefore⟩ := ih h
        simp only [List.forall_mem_cons] at hbefore
        have hnew : ∀ other ∈ before, other.id ≠ tier.id := by simpa using hid
        refine ⟨List.pairwise_cons.2 ⟨fun other hother => (hbefore other hother).1, hpairs⟩, ?_⟩
        exact List.forall_mem_cons.2 ⟨hnew, fun other hother => (hbefore other hother).2⟩

theorem find?_id_eq_some {tiers : List (Tier α)} (h : tiers.Pairwise (·.id ≠ ·.id))
    {tier : Tier α} (hmem : tier ∈ tiers) : tiers.find? (·.id == tier.id) = some tier := by
  induction tiers with
  | nil => cases hmem
  | cons first tiers ih =>
    have ⟨hfirst, hrest⟩ := List.pairwise_cons.1 h
    rcases List.mem_cons.1 hmem with rfl | hmem
    · simp
    · simp [hfirst tier hmem, ih hrest hmem]

end Tiers

@[simp]
theorem mem_keys_curvePoint {α : Type} [Amount α] {evaluator : Evaluator} {tiers : List (Tier α)}
    {addons : List (Addon α × α)} {sample : α} {name : String} :
    name ∈ (curvePoint evaluator tiers addons sample).prices.keys ↔
      ∃ tier ∈ tiers, tier.displayName = name := by
  unfold curvePoint
  rw [KeyMap.mem_keys_ofList]
  simp

namespace Engine

section Model

variable {α : Type} [Amount α] (engine : Engine α)

theorem tiers_valid : engine.model.tiers.Pairwise (·.id ≠ ·.id) ∧
    ∀ tier ∈ engine.model.tiers, tier.table.validate = .ok () := by
  have hvalid := engine.model_valid
  unfold PricingModel.validate at hvalid
  rw [bind_eq_ok_iff, bind_eq_ok_iff, forM_eq_ok_iff] at hvalid
  obtain ⟨hnames, htables, _⟩ := hvalid
  refine ⟨(PricingModel.checkNames_eq_ok hnames).1, ?_⟩
  intro tier htier
  have htable := htables tier htier
  cases hvalidate : tier.table.validate with
  | error fault =>
    rw [hvalidate] at htable
    cases htable
  | ok => rfl

theorem sampleCount_bounds :
    1 ≤ engine.config.sampleCount ∧ engine.config.sampleCount ≤ maxSampleCount := by
  have hvalid := engine.config_valid
  unfold EngineConfig.validate at hvalid
  split at hvalid
  next => cases hvalid
  next hcount =>
    simp only [Bool.or_eq_true, beq_iff_eq, decide_eq_true_eq, not_or, Nat.not_lt] at hcount
    omega

/--
A tier that a request names, or any tier if it names none.
-/
def Requested (ids : List String) (tier : Tier α) : Prop :=
  tier ∈ engine.model.tiers ∧ (ids = [] ∨ tier.id ∈ ids)

theorem mapM_tier_eq_ok {ids : List String}
    (h : ∀ id ∈ ids, ∃ tier ∈ engine.model.tiers, tier.id = id) :
    ∃ tiers, ids.mapM engine.tier = .ok tiers ∧
      ∀ tier, tier ∈ tiers ↔ tier ∈ engine.model.tiers ∧ tier.id ∈ ids := by
  induction ids with
  | nil => exact ⟨[], rfl, by simp⟩
  | cons id ids ih =>
    obtain ⟨⟨first, hfirst, rfl⟩, hids⟩ := List.forall_mem_cons.1 h
    obtain ⟨tiers, htiers, hmem⟩ := ih hids
    have htier : engine.tier first.id = .ok first := by
      unfold Engine.tier PricingModel.tier?
      rw [find?_id_eq_some engine.tiers_valid.1 hfirst]
    refine ⟨first :: tiers, ?_, ?_⟩
    · rw [List.mapM_cons, htier, htiers]
      rfl
    · intro tier
      rw [List.mem_cons, List.mem_cons, hmem, and_or_left]
      refine or_congr_left ⟨?_, ?_⟩
      · rintro rfl
        exact ⟨hfirst, rfl⟩
      · rintro ⟨htier, hid⟩
        have hfound := find?_id_eq_some engine.tiers_valid.1 htier
        rw [hid, find?_id_eq_some engine.tiers_valid.1 hfirst] at hfound
        exact (Option.some.inj hfound).symm

theorem curveTiers_eq_ok {ids : List String}
    (h : ∀ id ∈ ids, ∃ tier ∈ engine.model.tiers, tier.id = id) :
    ∃ tiers, engine.curveTiers ids = .ok tiers ∧
      ∀ tier, tier ∈ tiers ↔ engine.Requested ids tier := by
  unfold curveTiers Requested
  cases ids with
  | nil => exact ⟨engine.model.tiers, rfl, by simp⟩
  | cons id ids =>
    obtain ⟨tiers, htiers, hmem⟩ := engine.mapM_tier_eq_ok h
    exact ⟨tiers, htiers, by simpa using hmem⟩

end Model

theorem curve_eq_ok {engine : Engine Float} {request : CurveRequest Float}
    {tiers : List (Tier Float)} (h : engine.curveTiers request.tierIds = .ok tiers) :
    engine.curve request = .ok (renderCurve engine.evaluator engine.config.sampleCount tiers
      (engine.curveAddons request.addons)) := by
  unfold curve
  rw [h]
  rfl

/--
A curve has prices for exactly the requested tiers, at no more samples than are set, and no points
if none of these tiers has a domain. Otherwise the last sample is the end of the domain. The samples
ascend within the domain if and only if it has an end or there is only one of them.
-/
theorem curve_ascends_iff_bounded (engine : Engine Float) (request : CurveRequest Float)
    (hids : ∀ id ∈ request.tierIds, ∃ tier ∈ engine.model.tiers, tier.id = id)
    (hdefined : ∀ tier ∈ engine.model.tiers, tier.table.BoundsDefined) :
    ∃ tiers points, engine.curveTiers request.tierIds = .ok tiers ∧
      (∀ tier, tier ∈ tiers ↔ engine.Requested request.tierIds tier) ∧
      engine.curve request = .ok points ∧
      points.length ≤ engine.config.sampleCount ∧
      (∀ point ∈ points, ∀ name, name ∈ point.prices.keys ↔
        ∃ tier, engine.Requested request.tierIds tier ∧ tier.displayName = name) ∧
      (points = [] ↔ ∀ tier, engine.Requested request.tierIds tier → tier.table.domain? = none) ∧
      ∀ domain, Tier.domain? tiers = some domain →
        points.getLast?.map (·.sample) = some domain.high ∧
        (CurvePoint.AscendWithin domain points ↔
          domain.high < Amount.top ∨ engine.config.sampleCount = 1) := by
  obtain ⟨tiers, htiers, hmem⟩ := engine.curveTiers_eq_ok hids
  obtain ⟨hone, hmax⟩ := engine.sampleCount_bounds
  simp only [← hmem]
  refine ⟨tiers, _, htiers, fun _ => Iff.rfl, curve_eq_ok htiers, ?_⟩
  rw [← Tier.domain?_eq_none_iff]
  cases hdomain : Tier.domain? tiers with
  | none => simp [renderCurve, hdomain]
  | some domain =>
    have hvalid : ∀ tier ∈ tiers, tier.table.validate = .ok () :=
      fun tier htier => engine.tiers_valid.2 tier ((hmem tier).1 htier).1
    have hle := Tier.domain?_low_le_high hvalid
      (fun tier htier => hdefined tier ((hmem tier).1 htier).1) hdomain
    have hlast := getLast?_samplePoints domain.low domain.high engine.config.sampleCount
    rw [renderCurve_of_domain hdomain hle]
    refine ⟨?_, ?_, ?_, ?_⟩
    · rw [List.length_map]
      have := length_samplePoints_le domain.low domain.high engine.config.sampleCount
      omega
    · intro point hpoint name
      obtain ⟨sample, _, rfl⟩ := List.mem_map.1 hpoint
      exact mem_keys_curvePoint
    · have hne : samplePoints domain.low domain.high engine.config.sampleCount ≠ [] := by
        intro hnil
        rw [hnil] at hlast
        cases hlast
      simp [hne]
    · rintro _ ⟨⟩
      refine ⟨?_, ?_⟩
      · rw [List.getLast?_map, hlast]
        rfl
      · rw [ascendWithin_samplePoints_iff hle]
        exact or_congr_right (by omega)

def storefront : Engine Float where
  model := {
    tiers := [
      { id := "growth", name := "Growth", table := .growth },
      { id := "quotas", name := "", table := .quotas }]
    addons := [] }
  config := { sampleCount := 20 }
  model_valid := eq_ok_of_isOk (by decide +kernel)
  config_valid := eq_ok_of_isOk (by decide)

theorem curve_storefront_ascends :
    (∀ id ∈ ["quotas", "growth"], ∃ tier ∈ storefront.model.tiers, tier.id = id) ∧
    (∀ tier ∈ storefront.model.tiers, tier.table.BoundsDefined) ∧
    ∃ domain points, domain.high == 200 ∧
      storefront.curve { tierIds := ["quotas", "growth"] } = .ok points ∧
      points.length ≤ 20 ∧ points ≠ [] ∧
      (∀ point ∈ points, "quotas" ∈ point.prices.keys ∧ "Growth" ∈ point.prices.keys) ∧
      points.getLast?.map (·.sample) = some domain.high ∧
      CurvePoint.AscendWithin domain points := by
  have hids : ∀ id ∈ ["quotas", "growth"], ∃ tier ∈ storefront.model.tiers, tier.id = id := by
    decide
  have hdefined : ∀ tier ∈ storefront.model.tiers, tier.table.BoundsDefined := by decide +kernel
  obtain ⟨tiers, points, htiers, _, hcurve, hlength, hnames, _, hsamples⟩ :=
    curve_ascends_iff_bounded storefront { tierIds := ["quotas", "growth"] } hids hdefined
  obtain ⟨tiers', htiers', hdomain⟩ := exists_ok_of_any
    (p := fun tiers => (Tier.domain? tiers).any fun domain =>
      domain.high == 200 && domain.high < Amount.top)
    (x := storefront.curveTiers ["quotas", "growth"]) (by decide +kernel)
  obtain rfl : tiers = tiers' := Except.ok.inj (htiers.symm.trans htiers')
  obtain ⟨domain, hdomain, hhigh⟩ := (Option.any_eq_true _ _).1 hdomain
  rw [Bool.and_eq_true, decide_eq_true_eq] at hhigh
  obtain ⟨hlast, hascend⟩ := hsamples domain hdomain
  refine ⟨hids, hdefined, domain, points, hhigh.1, hcurve, hlength, ?_, ?_, hlast,
    hascend.2 (.inl hhigh.2)⟩
  · rintro rfl
    cases hlast
  · intro point hpoint
    simp only [hnames point hpoint]
    exact ⟨⟨_, ⟨.tail _ (.head _), .inr (by decide)⟩, rfl⟩,
      ⟨_, ⟨.head _, .inr (by decide)⟩, rfl⟩⟩

/--
The last range has no end. The step through it is infinite, so the first sample is undefined.
-/
theorem curve_boundless_undefined :
    ∃ table engine points,
      RateTable.load Decimal.readNumber? [RateTable.usage,
          { name := "Fee", key := "fee", kind := .fee },
          .output "Price" "price" "lookup(usage)\x7bfee\x7d"]
        "usage_low,usage_high,fee\n0,10,5\n10,inf,8\n".toUTF8.toList = .ok table ∧
      table.BoundsDefined ∧
      Engine.new { tiers := [{ id := "plan", name := "Plan", table }], addons := [] }
        { sampleCount := 2 } = .ok engine ∧
      engine.curve { tierIds := ["plan"] } = .ok points ∧
      ∃ point ∈ points, Amount.isNaN (α := Float) point.sample = true := by
  obtain ⟨table, hload, htable⟩ := exists_ok_of_any
    (p := fun table : RateTable Float => table.BoundsDefined ∧
      (Engine.new { tiers := [{ id := "plan", name := "Plan", table }], addons := [] }
        { sampleCount := 2 }).toOption.any fun engine =>
        (engine.curveTiers ["plan"]).toOption.any fun tiers =>
          (Tier.domain? tiers).any fun domain =>
            domain.low ≤ domain.high &&
              (samplePoints domain.low domain.high engine.config.sampleCount).any Amount.isNaN)
    (x := RateTable.load Decimal.readNumber? [RateTable.usage,
        { name := "Fee", key := "fee", kind := .fee },
        .output "Price" "price" "lookup(usage)\x7bfee\x7d"]
      "usage_low,usage_high,fee\n0,10,5\n10,inf,8\n".toUTF8.toList) (by decide +kernel)
  obtain ⟨hdefined, hengine⟩ := of_decide_eq_true htable
  obtain ⟨engine, hnew, hengine⟩ := exists_ok_of_any hengine
  obtain ⟨tiers, htiers, hdomain⟩ := exists_ok_of_any hengine
  obtain ⟨domain, hdomain, hsamples⟩ := (Option.any_eq_true _ _).1 hdomain
  rw [Bool.and_eq_true, decide_eq_true_eq, List.any_eq_true] at hsamples
  obtain ⟨hle, sample, hmem, hundefined⟩ := hsamples
  refine ⟨table, engine, _, hload, hdefined, hnew, curve_eq_ok htiers, ?_⟩
  rw [renderCurve_of_domain hdomain hle]
  exact ⟨_, List.mem_map_of_mem hmem, hundefined⟩

end Engine

end Tariff
