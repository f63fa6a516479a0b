import Mathlib.Data.List.Basic
import Tariff.Addon
import Tariff.Proofs.Fault
import Tariff.Proofs.Validate

/-!
This module contains which selected addons are charged for, of those that have a price per unit and
are selected with a number of units. Each of them has its charge unless quantities for metrics are
given as well: these come first, an addon with a price per unit has no use for them, and it is left
out.
-/

namespace Tariff

variable {α : Type}

/--
A selection names an addon that has a price per unit, and gives a number of units.
-/
structure Selection.Billable (addons : List (Addon α)) (selection : Selection α) (addon : Addon α)
    (model : PriceModel α) (units : α) : Prop where
  found : Addon.find? addons selection.addonId = some addon
  perUnit : addon.isCustomMetric = false
  priced : addon.model = some model
  counted : selection.units = some units

def Selection.hasMetrics (selection : Selection α) : Bool :=
  selection.quantityMap.any (!·.entries.isEmpty)

theorem Selection.quantity?_of_hasMetrics {selection : Selection α}
    (h : selection.hasMetrics = true) :
    ∃ quantities, selection.quantity? = some (.metrics quantities) := by
  obtain ⟨quantities, hmap, hentries⟩ := (Option.any_eq_true ..).1 h
  refine ⟨quantities, ?_⟩
  unfold quantity?
  rw [hmap, Option.filter_some, if_pos hentries]

theorem Selection.quantity?_of_units {selection : Selection α} {units : α}
    (h : selection.hasMetrics = false) (hunits : selection.units = some units) :
    selection.quantity? = some (.units units) := by
  have hnone : selection.quantityMap.filter (!·.entries.isEmpty) = none := by
    rw [Option.filter_eq_none_iff]
    intro quantities hmap
    simpa [hasMetrics, hmap] using h
  unfold quantity?
  rw [hnone, hunits]
  rfl

theorem mapM_eq_ok {ε β γ : Type} {f : β → Except ε γ} {xs : List β} {ys : List γ}
    (h : xs.mapM f = .ok ys) : xs.map f = ys.map .ok := by
  induction xs generalizing ys with
  | nil =>
    cases h
    rfl
  | cons x xs ih =>
    rw [List.mapM_cons] at h
    obtain ⟨y, hy, h⟩ := exists_of_bind_eq_ok h
    obtain ⟨rest, hrest, h⟩ := exists_of_bind_eq_ok h
    cases h
    rw [List.map_cons, List.map_cons, hy, ih hrest]

variable [Amount α]

theorem PriceFigures.exists_reconcile {ε : Type} (unitPrice total : α)
    (discount : Option (Discount α)) (precision : Precision) {reprice : α → Except ε α}
    (hreprice : ∀ unitPrice, ∃ total, reprice unitPrice = .ok total) :
    ∃ figures, reconcile unitPrice total discount precision reprice = .ok figures ∧
      figures.listUnitPrice = unitPrice ∧ figures.listTotal = total := by
  unfold reconcile
  split
  next => exact ⟨_, rfl, rfl, rfl⟩
  next discountedUnitPrice =>
    obtain ⟨discountedTotal, htotal⟩ := hreprice discountedUnitPrice
    rw [htotal]
    exact ⟨_, rfl, rfl, rfl⟩
  next => exact ⟨_, rfl, rfl, rfl⟩

namespace Addon

variable {addon : Addon α} {selection : Selection α} {model : PriceModel α}

theorem exists_charge?_of_units (hperUnit : addon.isCustomMetric = false)
    (hmodel : addon.model = some model) {units : α}
    (hquantity : selection.quantity? = some (.units units)) (evaluator : Evaluator) (core : α)
    (mode : Mode) :
    ∃ charge, addon.charge? evaluator selection core mode = .ok (some charge) ∧
      charge.addonId = addon.id ∧ charge.units = some units ∧
      charge.figures.listUnitPrice = model.unitPrice core ∧
      charge.figures.listTotal = model.unitPrice core * units := by
  have hlist : addon.listPrice evaluator (.units units) core mode =
      .ok (model.unitPrice core, model.unitPrice core * units) := by
    simp [listPrice, hperUnit, hmodel, Addon.units, Functor.map, Except.map]
  have hreprice : ∀ unitPrice, ∃ total,
      addon.reprice evaluator (.units units) mode unitPrice = .ok total := by
    intro unitPrice
    exact ⟨unitPrice * units, by simp [reprice, hperUnit, Addon.units, Functor.map, Except.map]⟩
  obtain ⟨figures, hfigures, hunitPrice, htotal⟩ :=
    PriceFigures.exists_reconcile (model.unitPrice core) (model.unitPrice core * units)
      selection.discount .addon hreprice
  unfold charge?
  simp only [hquantity, hlist, hfigures, bind, Except.bind]
  exact ⟨_, rfl, rfl, rfl, hunitPrice, htotal⟩

theorem charge?_of_metrics (hperUnit : addon.isCustomMetric = false) {quantities : Quantities α}
    (hquantity : selection.quantity? = some (.metrics quantities)) (evaluator : Evaluator)
    (core : α) (mode : Mode) :
    addon.charge? evaluator selection core mode =
      .error (.missingReference (.noUnits addon.id)) := by
  unfold charge? listPrice
  simp [hquantity, hperUnit, Addon.units, bind, Except.bind]

theorem chargeAll_eq_ok {evaluator : Evaluator} {addons : List (Addon α)}
    {selections : List (Selection α)} {core : α} {mode : Mode} {charges : List (AddonCharge α)}
    (h : chargeAll evaluator addons selections core mode = .ok charges) :
    charges = selections.filterMap fun selection =>
      (chargeOf evaluator addons core mode selection).toOption.join := by
  unfold chargeAll at h
  obtain ⟨outcomes, houtcomes, h⟩ := exists_of_bind_eq_ok h
  cases h
  calc outcomes.flatMap Option.toList
    _ = (outcomes.map Except.ok).filterMap fun outcome : Except (Fault α) _ =>
        outcome.toOption.join := by
      rw [List.filterMap_map, List.filterMap_eq_flatMap_toList]
      rfl
    _ = (selections.map (chargeOf evaluator addons core mode)).filterMap fun outcome =>
        outcome.toOption.join := by
      rw [mapM_eq_ok houtcomes]
    _ = selections.filterMap fun selection =>
        (chargeOf evaluator addons core mode selection).toOption.join := by
      rw [List.filterMap_map]
      rfl

theorem chargeOf_eq_none_of_hasMetrics {addons : List (Addon α)} {units : α}
    (hbillable : selection.Billable addons addon model units)
    (hmetrics : selection.hasMetrics = true) (evaluator : Evaluator) (core : α) (mode : Mode) :
    chargeOf evaluator addons core mode selection = .ok none := by
  obtain ⟨quantities, hquantity⟩ := Selection.quantity?_of_hasMetrics hmetrics
  unfold chargeOf
  rw [hbillable.found]
  dsimp only
  rw [charge?_of_metrics hbillable.perUnit hquantity]

theorem exists_chargeOf_of_units {addons : List (Addon α)} {units : α}
    (hbillable : selection.Billable addons addon model units)
    (hmetrics : selection.hasMetrics = false) (evaluator : Evaluator) (core : α) (mode : Mode) :
    ∃ charge, chargeOf evaluator addons core mode selection = .ok (some charge) ∧
      charge.addonId = selection.addonId ∧ charge.units = some units ∧
      charge.figures.listUnitPrice = model.unitPrice core ∧
      charge.figures.listTotal = model.unitPrice core * units := by
  have hquantity := Selection.quantity?_of_units hmetrics hbillable.counted
  have hid : addon.id = selection.addonId := by
    simpa using List.find?_some hbillable.found
  obtain ⟨charge, hcharge, hcharged⟩ :=
    exists_charge?_of_units hbillable.perUnit hbillable.priced hquantity evaluator core mode
  refine ⟨charge, ?_, hid ▸ hcharged⟩
  unfold chargeOf
  rw [hbillable.found]
  dsimp only
  rw [hcharge]

theorem chargeAll_billable_unless_metrics {evaluator : Evaluator} {addons : List (Addon α)}
    {selections : List (Selection α)} {core : α} {mode : Mode} {charges : List (AddonCharge α)}
    (h : chargeAll evaluator addons selections core mode = .ok charges) :
    (charges = selections.filterMap fun selection =>
      (chargeOf evaluator addons core mode selection).toOption.join) ∧
    ∀ selection ∈ selections, ∀ addon model units,
      selection.Billable addons addon model units →
      (selection.hasMetrics = true → chargeOf evaluator addons core mode selection = .ok none) ∧
      (selection.hasMetrics = false →
        ∃ charge ∈ charges, chargeOf evaluator addons core mode selection = .ok (some charge) ∧
          charge.addonId = selection.addonId ∧ charge.units = some units ∧
          charge.figures.listUnitPrice = model.unitPrice core ∧
          charge.figures.listTotal = model.unitPrice core * units) := by
  have hcharges := chargeAll_eq_ok h
  refine ⟨hcharges, ?_⟩
  intro selection hselection addon model units hbillable
  constructor
  · intro hmetrics
    exact chargeOf_eq_none_of_hasMetrics hbillable hmetrics evaluator core mode
  · intro hmetrics
    obtain ⟨charge, hcharge, hcharged⟩ :=
      exists_chargeOf_of_units hbillable hmetrics evaluator core mode
    refine ⟨charge, ?_, hcharge, hcharged⟩
    rw [hcharges, List.mem_filterMap]
    refine ⟨selection, hselection, ?_⟩
    rw [hcharge]
    rfl

def support : Addon Float :=
  .fixed "support" 25

def supportSelection (quantityMap : Option (Quantities Float))
    (discount : Option (Discount Float) := none) : Selection Float where
  addonId := "support"
  units := some 3
  quantityMap := quantityMap
  discount := discount

theorem supportSelection_billable (quantityMap : Option (Quantities Float))
    (discount : Option (Discount Float)) :
    (supportSelection quantityMap discount).Billable [support] support (.fixed 25) 3 where
  found := rfl
  perUnit := rfl
  priced := rfl
  counted := rfl

def supportSelections : List (Selection Float) :=
  [supportSelection none, supportSelection (some ∅) (some { unitPrice := some 20 })]

theorem chargeAll_support :
    ∃ charges, chargeAll {} [support] supportSelections 100 .exact = .ok charges ∧
      charges.length = 2 ∧
      ∃ charge ∈ charges, charge.addonId = "support" ∧
        charge.figures.listTotal = (PriceModel.fixed 25).unitPrice 100 * 3 := by
  obtain ⟨charges, hcharges, hlength⟩ := exists_ok_of_any (p := (·.length == 2))
    (x := chargeAll {} [support] supportSelections 100 .exact) (by decide +kernel)
  have hbillable := (chargeAll_billable_unless_metrics hcharges).2 _ (.tail _ (.head _))
    support (.fixed 25) 3 (supportSelection_billable _ _)
  obtain ⟨charge, hcharge, _, hid, _, _, htotal⟩ := hbillable.2 rfl
  exact ⟨charges, hcharges, beq_iff_eq.1 hlength, charge, hcharge, hid, htotal⟩

/--
Quantities for metrics take the place of the units, and the addon is left out.
-/
theorem chargeAll_support_dropped :
    (supportSelection (some (KeyMap.insert ∅ "gb" 10))).Billable [support] support (.fixed 25) 3 ∧
    chargeAll {} [support] [supportSelection (some (KeyMap.insert ∅ "gb" 10))] 100 .exact =
      .ok [] :=
  ⟨supportSelection_billable _ _, rfl⟩

end Addon

end Tariff
