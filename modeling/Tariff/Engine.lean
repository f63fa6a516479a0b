import Tariff.Curve
import Tariff.DrivingFields

/-!
This module contains the pricing engine, which answers requests against a pricing model.
-/

namespace Tariff

structure EngineConfig where
  sampleCount : Nat := maxSampleCount
  /-- How many rows a script may read. -/
  stepBudget : Nat := 10000
  /-- Whether a defective formula is a fault of the whole request. -/
  strict : Bool := false
  /-- Whether work may be done in parallel. Answers do not depend on it. -/
  parallel : Bool := true
deriving Repr, DecidableEq

def EngineConfig.validate {α : Type} (config : EngineConfig) : Except (ConfigFault α) Unit :=
  if config.sampleCount == 0 || maxSampleCount < config.sampleCount then
    .error (.sampleCount config.sampleCount)
  else if config.stepBudget == 0 then
    .error .noSteps
  else
    .ok ()

structure CalculateRequest (α : Type) where
  tierId : String
  quantities : Quantities α
  addons : List (Selection α) := []
  /-- Discounts by metric. Only the one on the metric that drives the total counts. -/
  discounts : KeyMap (Discount α) := ∅

structure CoreOutput (α : Type) where
  columns : KeyMap α
  total : α
  pricing : PriceFigures α

structure CalculateResponse (α : Type) where
  tierId : String
  core : CoreOutput α
  addons : List (AddonCharge α)
  /-- The discounted price of the tier and the discounted charges together. -/
  total : α

structure CurveAddon (α : Type) where
  addonId : String
  units : α

structure CurveRequest (α : Type) where
  tierIds : List String
  addons : List (CurveAddon α) := []

/--
An engine: a model and settings that can be used.
-/
structure Engine (α : Type) [Amount α] where
  model : PricingModel α
  config : EngineConfig
  model_valid : model.validate = .ok ()
  config_valid : config.validate (α := α) = .ok ()

namespace Engine

variable {α : Type} [Amount α]

def new (model : PricingModel α) (config : EngineConfig := {}) : Except (Fault α) (Engine α) :=
  match hmodel : model.validate with
  | .error fault => .error (.config fault)
  | .ok () =>
    match hconfig : config.validate (α := α) with
    | .error fault => .error (.config fault)
    | .ok () => .ok { model, config, model_valid := hmodel, config_valid := hconfig }

variable (engine : Engine α)

def evaluator : Evaluator where
  stepBudget := engine.config.stepBudget
  strict := engine.config.strict

def tier (id : String) : Except (Fault α) (Tier α) :=
  match engine.model.tier? id with
  | some tier => .ok tier
  | none => .error (.unknownTier id)

def reprice (table : RateTable α) (quantities : Quantities α) (unitPrice : α) :
    Except (Fault α) α := do
  let result ← engine.evaluator.evaluate table quantities .exact (some unitPrice)
  return result.total

def corePrice (table : RateTable α) (quantities : Quantities α)
    (discounts : KeyMap (Discount α)) : Except (Fault α) (CoreOutput α) := do
  let result ← engine.evaluator.evaluate table quantities .exact
  let unitPrice := Evaluator.unitPrice table result quantities
  let discount := table.primaryKey?.bind discounts.find?
  let pricing ← PriceFigures.reconcile unitPrice result.total discount .core
    (engine.reprice table quantities)
  return { columns := result.columns, total := result.total, pricing }

def calculate (request : CalculateRequest α) : Except (Fault α) (CalculateResponse α) := do
  let tier ← engine.tier request.tierId
  let core ← engine.corePrice tier.table request.quantities request.discounts
  let addons ← Addon.chargeAll engine.evaluator engine.model.addons request.addons core.total .exact
  let total := core.pricing.discountedTotal + Amount.sum (addons.map (·.figures.discountedTotal))
  return { tierId := request.tierId, core, addons, total }

/--
The tiers with given identifiers, or all tiers if there are none.
-/
def curveTiers (ids : List String) : Except (Fault α) (List (Tier α)) :=
  if ids.isEmpty then .ok engine.model.tiers else ids.mapM engine.tier

/--
The addons of a request for a curve that exist, with their units.
-/
def curveAddons (addons : List (CurveAddon α)) : List (Addon α × α) :=
  addons.filterMap fun addon => (engine.model.addon? addon.addonId).map (·, addon.units)

def curve (request : CurveRequest α) : Except (Fault α) (List (CurvePoint α)) := do
  let tiers ← engine.curveTiers request.tierIds
  let addons := engine.curveAddons request.addons
  return renderCurve engine.evaluator engine.config.sampleCount tiers addons

def drivingFields (tierId : String) : Except (Fault α) DrivingFields := do
  let tier ← engine.tier tierId
  return tier.table.drivingFields

def addonFields (addonId : String) : Except (Fault α) DrivingFields :=
  match engine.model.addon? addonId with
  | none => .error (.missingReference (.unknownAddon addonId))
  | some addon => .ok (addon.customTable.elim ∅ RateTable.drivingFields)

end Engine

end Tariff
