import Tariff.Addon

/-!
This module contains pricing models: tiers with their rate tables, and addons.
-/

namespace Tariff

structure Tier (α : Type) where
  id : String
  /-- The name people see. It may be empty. -/
  name : String
  table : RateTable α
deriving BEq

def Tier.displayName {α : Type} (tier : Tier α) : String :=
  if tier.name.isEmpty then tier.id else tier.name

structure PricingModel (α : Type) where
  tiers : List (Tier α)
  addons : List (Addon α)
deriving BEq

namespace PricingModel

variable {α : Type}

def tier? (model : PricingModel α) (id : String) : Option (Tier α) :=
  model.tiers.find? (·.id == id)

def addon? (model : PricingModel α) (id : String) : Option (Addon α) :=
  Addon.find? model.addons id

/--
The model in which the first tier with an identifier has another table.
-/
def withTable (model : PricingModel α) (id : String) (table : RateTable α) : PricingModel α where
  tiers := replace model.tiers
  addons := model.addons
where
  replace : List (Tier α) → List (Tier α)
    | [] => []
    | tier :: tiers =>
      if tier.id == id then { tier with table } :: tiers else tier :: replace tiers

/--
Check that no identifier and no name on curves occurs twice, given the tiers that came before.
-/
def checkNames (before : List (Tier α)) : List (Tier α) → Except (ConfigFault α) Unit
  | [] => .ok ()
  | tier :: tiers =>
    if before.any (·.id == tier.id) then
      .error (.duplicateTier tier.id)
    else if before.any (·.displayName == tier.displayName) then
      .error (.duplicateTierName tier.id tier.displayName)
    else
      checkNames (tier :: before) tiers

def validate [Amount α] (model : PricingModel α) : Except (ConfigFault α) Unit := do
  checkNames [] model.tiers
  model.tiers.forM fun tier => tier.table.validate.mapError (.tier tier.id)
  model.addons.forM Addon.validate

end PricingModel

end Tariff
