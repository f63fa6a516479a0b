import Tariff.Discount
import Tariff.Evaluate
import Tariff.Table.Validate

/-!
This module contains addons: charges beside the price of a tier. An addon has a fixed price per
unit, a price per unit that is a percentage of the tier's price, or a rate table of its own.

A selected addon that is gone, or whose prices are gone, is left out of the charges.
-/

namespace Tariff

inductive PriceModel (α : Type) where
  | fixed (fee : α)
  /-- A percentage of the core price, within optional bounds. -/
  | percentage (percent : α) (min max : Option α)
deriving Repr, BEq

/--
The price of one unit, given the core price. The upper bound counts if the bounds exclude each
other.
-/
def PriceModel.unitPrice {α : Type} [Amount α] (model : PriceModel α) (core : α) : α :=
  match model with
  | fixed fee => fee
  | percentage percent min max =>
    let price := core * percent / Amount.ofNat 100
    let price := min.elim price (Amount.greater price)
    max.elim price (Amount.lesser price)

structure Addon (α : Type) where
  id : String
  name : String
  /-- Whether the addon is priced by its own table. -/
  isCustomMetric : Bool
  model : Option (PriceModel α)
  customTable : Option (RateTable α)
deriving BEq

inductive AddonQuantity (α : Type) where
  | units (units : α)
  | metrics (quantities : Quantities α)

structure Selection (α : Type) where
  addonId : String
  units : Option α := none
  quantityMap : Option (Quantities α) := none
  discount : Option (Discount α) := none

/--
How much is asked for. Quantities for metrics come before a number of units, unless there are none.
-/
def Selection.quantity? {α : Type} (selection : Selection α) : Option (AddonQuantity α) :=
  match selection.quantityMap.filter (!·.entries.isEmpty) with
  | some quantities => some (.metrics quantities)
  | none => selection.units.map .units

structure AddonCharge (α : Type) where
  addonId : String
  name : String
  units : Option α
  figures : PriceFigures α

namespace Addon

variable {α : Type}

def fixed (id : String) (fee : α) : Addon α where
  id := id
  name := id
  isCustomMetric := false
  model := some (.fixed fee)
  customTable := none

def percentage (id : String) (percent : α) (min max : Option α) : Addon α where
  id := id
  name := id
  isCustomMetric := false
  model := some (.percentage percent min max)
  customTable := none

def customMetric (id : String) (table : RateTable α) : Addon α where
  id := id
  name := id
  isCustomMetric := true
  model := none
  customTable := some table

variable [Amount α]

def checkModel (addon : Addon α) : Except (ConfigFault α) Unit :=
  match addon.model with
  | some (.percentage percent min max) =>
    if !Amount.isFinite percent then
      .error (.badPercentage addon.id)
    else
      match min, max with
      | some min, some max =>
        if max < min then .error (.invertedBounds addon.id min max) else .ok ()
      | _, _ => .ok ()
  | _ => .ok ()

def validate (addon : Addon α) : Except (ConfigFault α) Unit := do
  addon.checkModel
  match addon.customTable with
  | some table => table.validate.mapError (.addon addon.id)
  | none => return

/--
The table of an addon and the quantities to evaluate it for. Units are a quantity of the metric that
drives the total.
-/
def tableInputs (addon : Addon α) (quantity : AddonQuantity α) :
    Except (Fault α) (RateTable α × Quantities α) :=
  match addon.customTable with
  | none => .error (.missingReference (.noTable addon.id))
  | some table =>
    match quantity with
    | .metrics quantities => .ok (table, quantities)
    | .units units =>
      match table.primaryKey? with
      | some key => .ok (table, KeyMap.insert ∅ key units)
      | none => .error (.missingReference (.noMetric addon.id))

def units (addon : Addon α) (quantity : AddonQuantity α) : Except (Fault α) α :=
  match quantity with
  | .units units => .ok units
  | .metrics _ => .error (.missingReference (.noUnits addon.id))

def listPrice (evaluator : Evaluator) (addon : Addon α) (quantity : AddonQuantity α) (core : α)
    (mode : Mode) : Except (Fault α) (α × α) := do
  if addon.isCustomMetric then
    let (table, quantities) ← addon.tableInputs quantity
    let result ← evaluator.evaluate table quantities mode
    return (Evaluator.unitPrice table result quantities, result.total)
  else
    let units ← addon.units quantity
    match addon.model with
    | some model => return (model.unitPrice core, model.unitPrice core * units)
    | none => throw (.missingReference (.noModel addon.id))

def reprice (evaluator : Evaluator) (addon : Addon α) (quantity : AddonQuantity α) (mode : Mode)
    (unitPrice : α) : Except (Fault α) α := do
  if addon.isCustomMetric then
    let (table, quantities) ← addon.tableInputs quantity
    let result ← evaluator.evaluate table quantities mode (some unitPrice)
    return result.total
  else
    let units ← addon.units quantity
    return unitPrice * units

/--
The charge for a selected addon. There is none if nothing is asked for.
-/
def charge? (evaluator : Evaluator) (addon : Addon α) (selection : Selection α) (core : α)
    (mode : Mode) : Except (Fault α) (Option (AddonCharge α)) := do
  match selection.quantity? with
  | none => return none
  | some quantity =>
    let (unitPrice, total) ← addon.listPrice evaluator quantity core mode
    let figures ← PriceFigures.reconcile unitPrice total selection.discount .addon
      (addon.reprice evaluator quantity mode)
    let units := match quantity with
      | .units units => some units
      | .metrics _ => none
    return some { addonId := addon.id, name := addon.name, units, figures }

def find? (addons : List (Addon α)) (id : String) : Option (Addon α) :=
  addons.find? (·.id == id)

/--
The charge for a selection, if there is one. An addon that is gone, or whose prices are gone, is
left out.
-/
def chargeOf (evaluator : Evaluator) (addons : List (Addon α)) (core : α) (mode : Mode)
    (selection : Selection α) : Except (Fault α) (Option (AddonCharge α)) :=
  match find? addons selection.addonId with
  | none => .ok none
  | some addon =>
    match addon.charge? evaluator selection core mode with
    | .error (.missingReference _) => .ok none
    | outcome => outcome

def chargeAll (evaluator : Evaluator) (addons : List (Addon α)) (selections : List (Selection α))
    (core : α) (mode : Mode) : Except (Fault α) (List (AddonCharge α)) := do
  let charges ← selections.mapM (chargeOf evaluator addons core mode)
  return charges.flatMap Option.toList

end Addon

end Tariff
