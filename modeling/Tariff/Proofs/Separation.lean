import Tariff.Engine
import Tariff.Proofs.AddonCharges

/-!
This module contains which parts of a request each part of its answer depends on, for pairs of
requests that are both answered. The list price of a tier depends on its quantities alone, and its
discounted price on one of the discounts at most. The charge for an addon depends on the list price,
but on no discount of the tier and on no other addon.
-/

namespace Tariff

variable {α : Type} [Amount α]

namespace Addon

variable {evaluator : Evaluator} {addons : List (Addon α)} {core : α} {mode : Mode}

theorem chargeAll_singleton {selection : Selection α} {charge? : Option (AddonCharge α)}
    (h : chargeOf evaluator addons core mode selection = .ok charge?) :
    chargeAll evaluator addons [selection] core mode = .ok charge?.toList := by
  unfold chargeAll
  rw [List.mapM_cons, h]
  simp [bind, Except.bind, pure, Except.pure]

theorem chargeAll_eq_flatMap {selections : List (Selection α)} {charges : List (AddonCharge α)}
    (h : chargeAll evaluator addons selections core mode = .ok charges) :
    ∃ alone : Selection α → List (AddonCharge α),
      (∀ selection ∈ selections,
        chargeAll evaluator addons [selection] core mode = .ok (alone selection)) ∧
      charges = selections.flatMap alone := by
  refine ⟨fun selection =>
    (chargeOf evaluator addons core mode selection).toOption.join.toList, ?_, ?_⟩
  · intro selection hselection
    obtain ⟨outcomes, houtcomes, _⟩ := exists_of_bind_eq_ok h
    have hmem : chargeOf evaluator addons core mode selection ∈ outcomes.map .ok :=
      mapM_eq_ok houtcomes ▸ List.mem_map_of_mem hselection
    obtain ⟨charge?, _, hcharge⟩ := List.mem_map.1 hmem
    dsimp only
    rw [chargeAll_singleton hcharge.symm, ← hcharge]
    rfl
  · rw [chargeAll_eq_ok h, List.filterMap_eq_flatMap_toList]

end Addon

def CalculateResponse.withAddons (response : CalculateResponse α) (charges : List (AddonCharge α)) :
    CalculateResponse α where
  tierId := response.tierId
  core := response.core
  addons := charges
  total := response.core.pricing.discountedTotal +
    Amount.sum (charges.map (·.figures.discountedTotal))

namespace Engine

variable {engine : Engine α} {request request' : CalculateRequest α}
  {response response' : CalculateResponse α}

theorem corePrice_eq_ok {table : RateTable α} {quantities : Quantities α}
    {discounts : KeyMap (Discount α)} {core : CoreOutput α}
    (h : engine.corePrice table quantities discounts = .ok core) :
    ∃ result, engine.evaluator.evaluate table quantities .exact = .ok result ∧
      core.columns = result.columns ∧ core.total = result.total ∧
      PriceFigures.reconcile (Evaluator.unitPrice table result quantities) result.total
        (table.primaryKey?.bind discounts.find?) .core (engine.reprice table quantities) =
          .ok core.pricing := by
  unfold corePrice at h
  obtain ⟨result, hresult, h⟩ := exists_of_bind_eq_ok h
  obtain ⟨pricing, hpricing, h⟩ := exists_of_bind_eq_ok h
  cases h
  exact ⟨result, hresult, rfl, rfl, hpricing⟩

theorem calculate_eq_ok_iff :
    engine.calculate request = .ok response ↔
      ∃ tier, engine.model.tier? request.tierId = some tier ∧
        engine.corePrice tier.table request.quantities request.discounts = .ok response.core ∧
        Addon.chargeAll engine.evaluator engine.model.addons request.addons response.core.total
          .exact = .ok response.addons ∧
        response.tierId = request.tierId ∧ response = response.withAddons response.addons := by
  unfold calculate Engine.tier
  constructor
  · intro h
    obtain ⟨tier, htier, h⟩ := exists_of_bind_eq_ok h
    obtain ⟨core, hcore, h⟩ := exists_of_bind_eq_ok h
    obtain ⟨charges, hcharges, h⟩ := exists_of_bind_eq_ok h
    cases h
    split at htier
    next tier' hfound =>
      cases htier
      exact ⟨tier, hfound, hcore, hcharges, rfl, rfl⟩
    next => cases htier
  · rintro ⟨tier, htier, hcore, hcharges, hid, hresponse⟩
    rw [hresponse, htier]
    simp only [bind, Except.bind, hcore, hcharges, ← hid]
    rfl

theorem calculate_withAddons (h : engine.calculate request = .ok response)
    {selections : List (Selection α)} {charges : List (AddonCharge α)}
    (hcharges : Addon.chargeAll engine.evaluator engine.model.addons selections response.core.total
      .exact = .ok charges) :
    engine.calculate { request with addons := selections } = .ok (response.withAddons charges) := by
  obtain ⟨tier, htier, hcore, _, hid, _⟩ := calculate_eq_ok_iff.1 h
  exact calculate_eq_ok_iff.2 ⟨tier, htier, hcore, hcharges, hid, rfl⟩

theorem corePrice_separate {table : RateTable α} {quantities : Quantities α}
    {discounts discounts' : KeyMap (Discount α)} {core core' : CoreOutput α}
    (h : engine.corePrice table quantities discounts = .ok core)
    (h' : engine.corePrice table quantities discounts' = .ok core') :
    core.columns = core'.columns ∧ core.total = core'.total ∧
      ((∀ key ∈ table.primaryKey?, discounts.find? key = discounts'.find? key) →
        core.pricing = core'.pricing) := by
  obtain ⟨result, hresult, hcolumns, htotal, hpricing⟩ := corePrice_eq_ok h
  obtain ⟨result', hresult', hcolumns', htotal', hpricing'⟩ := corePrice_eq_ok h'
  obtain rfl : result = result' := Except.ok.inj (hresult.symm.trans hresult')
  refine ⟨hcolumns.trans hcolumns'.symm, htotal.trans htotal'.symm, ?_⟩
  intro hdiscounts
  have hdiscount : table.primaryKey?.bind discounts.find? =
      table.primaryKey?.bind discounts'.find? := Option.bind_congr hdiscounts
  rw [hdiscount] at hpricing
  exact Except.ok.inj (hpricing.symm.trans hpricing')

theorem calculate_addons_eq_flatMap (h : engine.calculate request = .ok response) :
    ∃ alone : Selection α → CalculateResponse α,
      (∀ selection ∈ request.addons,
        engine.calculate { request with addons := [selection] } = .ok (alone selection)) ∧
      response.addons = request.addons.flatMap fun selection => (alone selection).addons := by
  obtain ⟨_, _, _, hcharges, _, _⟩ := calculate_eq_ok_iff.1 h
  obtain ⟨alone, halone, hconcat⟩ := Addon.chargeAll_eq_flatMap hcharges
  refine ⟨fun selection => response.withAddons (alone selection), ?_, hconcat⟩
  intro selection hselection
  exact calculate_withAddons h (halone selection hselection)

/--
Two answers for the same quantities of a tier have the same list price. They have the same
discounted price if the discounts on the metric that drives the total are the same, and the same
charges for addons if the selections are the same. The charges are those that each selection has on
its own.
-/
theorem calculate_separate (h : engine.calculate request = .ok response)
    (h' : engine.calculate request' = .ok response') (htier : request.tierId = request'.tierId)
    (hquantities : request.quantities = request'.quantities) :
    response.core.columns = response'.core.columns ∧ response.core.total = response'.core.total ∧
    (∃ tier, engine.model.tier? request.tierId = some tier ∧
      ((∀ key ∈ tier.table.primaryKey?,
          request.discounts.find? key = request'.discounts.find? key) →
        response.core.pricing = response'.core.pricing)) ∧
    (request.addons = request'.addons → response.addons = response'.addons) ∧
    ∃ alone : Selection α → CalculateResponse α,
      (∀ selection ∈ request.addons,
        engine.calculate { request with addons := [selection] } = .ok (alone selection)) ∧
      response.addons = request.addons.flatMap fun selection => (alone selection).addons := by
  obtain ⟨tier, hfound, hcore, hcharges, _, _⟩ := calculate_eq_ok_iff.1 h
  obtain ⟨tier', hfound', hcore', hcharges', _, _⟩ := calculate_eq_ok_iff.1 h'
  obtain rfl : tier = tier' := by
    rw [← htier, hfound] at hfound'
    exact Option.some.inj hfound'
  rw [← hquantities] at hcore'
  obtain ⟨hcolumns, htotal, hpricing⟩ := corePrice_separate hcore hcore'
  refine ⟨hcolumns, htotal, ⟨tier, hfound, hpricing⟩, ?_, calculate_addons_eq_flatMap h⟩
  intro haddons
  rw [htotal, haddons] at hcharges
  exact Except.ok.inj (hcharges.symm.trans hcharges')

/--
An engine with one tier and an addon of every kind.
-/
def suite : Engine Float where
  model := {
    tiers := [{ id := "growth", name := "Growth", table := .growth }]
    addons := [.fixed "setup" 50, .percentage "support" 10 none none,
      .customMetric "storage" .growth] }
  config := {}
  model_valid := eq_ok_of_isOk (by decide +kernel)
  config_valid := eq_ok_of_isOk (by decide)

/--
A request with a discounted percentage addon and an addon with its own table.
-/
def storageRequest : CalculateRequest Float where
  tierId := "growth"
  quantities := KeyMap.insert ∅ "range" 80
  addons := [
    { addonId := "support", units := some 2, discount := some { unitPrice := some 30 } },
    { addonId := "storage", quantityMap := some (KeyMap.insert ∅ "range" 150) }]
  discounts := KeyMap.insert (KeyMap.insert ∅ "range" { unitPrice := some 4 }) "rate"
    { total := some 1 }

/--
A request with another addon and without the discount that does not count.
-/
def setupRequest : CalculateRequest Float where
  tierId := "growth"
  quantities := KeyMap.insert ∅ "range" 80
  addons := [{ addonId := "setup", units := some 1 }]
  discounts := KeyMap.insert ∅ "range" { unitPrice := some 4 }

theorem calculate_suite_separate :
    ∃ response response', suite.calculate storageRequest = .ok response ∧
      suite.calculate setupRequest = .ok response' ∧
      response.addons.length = 2 ∧ response'.addons.length = 1 ∧
      response.core.columns = response'.core.columns ∧
      response.core.total = response'.core.total ∧
      response.core.pricing = response'.core.pricing ∧
      ∃ alone : Selection Float → CalculateResponse Float,
        (∀ selection ∈ storageRequest.addons,
          suite.calculate { storageRequest with addons := [selection] } =
            .ok (alone selection)) ∧
        response.addons = storageRequest.addons.flatMap fun selection =>
          (alone selection).addons := by
  obtain ⟨response, hresponse, hlength⟩ := exists_ok_of_any (x := suite.calculate storageRequest)
    (p := (·.addons.length == 2)) (by decide +kernel)
  obtain ⟨response', hresponse', hlength'⟩ := exists_ok_of_any (x := suite.calculate setupRequest)
    (p := (·.addons.length == 1)) (by decide +kernel)
  obtain ⟨hcolumns, htotal, ⟨tier, htier, hpricing⟩, _, halone⟩ :=
    calculate_separate hresponse hresponse' rfl rfl
  have hdiscounts : ∀ key ∈ tier.table.primaryKey?,
      storageRequest.discounts.find? key = setupRequest.discounts.find? key := by
    intro key hkey
    cases htier
    cases hkey
    rfl
  exact ⟨response, response', hresponse, hresponse', beq_iff_eq.1 hlength, beq_iff_eq.1 hlength',
    hcolumns, htotal, hpricing hdiscounts, halone⟩

end Engine

end Tariff
