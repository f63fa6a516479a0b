import Tariff.Engine
import Tariff.Wire.Model

/-!
This module contains the JSON form of settings, requests and answers.
-/

namespace Tariff

variable {α : Type}

namespace EngineConfig

def toJson (config : EngineConfig) : Json α :=
  .object [("sample_count", .natural config.sampleCount),
    ("script_step_budget", .natural config.stepBudget), ("strict_formulas", .bool config.strict),
    ("parallel", .bool config.parallel)]

def ofJson : Wire.Decoder α EngineConfig :=
  Wire.record [["sample_count"], ["script_step_budget"], ["strict_formulas"], ["parallel"]]
    fun parts =>
      let default : EngineConfig := {}
      EngineConfig.mk
        <$> parts.withDefault "sample_count" Wire.natural default.sampleCount
        <*> parts.withDefault "script_step_budget" Wire.natural default.stepBudget
        <*> parts.withDefault "strict_formulas" Wire.bool default.strict
        <*> parts.withDefault "parallel" Wire.bool default.parallel

end EngineConfig

variable [Amount α]

def EngineConfig.load (text : String) : Except (LoadFault α) EngineConfig := do
  let decode : Wire.Decoder α EngineConfig := EngineConfig.ofJson
  let config ← (Wire.fromText decode text).mapError .json
  config.validate.mapError .config
  return config

def Discount.ofJson : Wire.Decoder α (Discount α) :=
  Wire.record [["discounted_total"], ["discounted_unit_price"]] fun parts =>
    Discount.mk
      <$> parts.optional "discounted_total" Wire.amount
      <*> parts.optional "discounted_unit_price" Wire.amount

def Selection.ofJson : Wire.Decoder α (Selection α) :=
  Wire.record [["addon_id"], ["units"], ["quantity_map", "quantityMap"], ["discount"]]
    fun parts =>
      Selection.mk
        <$> parts.required "addon_id" Wire.string
        <*> parts.optional "units" Wire.amount
        <*> parts.optional "quantity_map" (Wire.map Wire.amount)
        <*> parts.optional "discount" Discount.ofJson

def CalculateRequest.ofJson : Wire.Decoder α (CalculateRequest α) :=
  Wire.record [["tier_id"], ["quantity"], ["addons"], ["discounts"]] fun parts =>
    CalculateRequest.mk
      <$> parts.required "tier_id" Wire.string
      <*> parts.required "quantity" (Wire.map Wire.amount)
      <*> parts.withDefault "addons" (Wire.list Selection.ofJson) []
      <*> parts.withDefault "discounts" (Wire.map Discount.ofJson) ∅

/--
Decode units of an addon on a curve. It is one unit unless another number is given.
-/
def CurveAddon.ofJson : Wire.Decoder α (CurveAddon α) :=
  Wire.record [["addon_id"], ["addon_units"]] fun parts =>
    CurveAddon.mk
      <$> parts.required "addon_id" Wire.string
      <*> parts.withDefault "addon_units" Wire.amount Amount.one

def CurveRequest.ofJson : Wire.Decoder α (CurveRequest α) :=
  Wire.record [["tier_ids"], ["addons"]] fun parts =>
    CurveRequest.mk
      <$> parts.required "tier_ids" (Wire.list Wire.string)
      <*> parts.withDefault "addons" (Wire.list CurveAddon.ofJson) []

def PriceFigures.toMembers (figures : PriceFigures α) : List (String × Json α) :=
  [("list_unit_price", Wire.ofAmount figures.listUnitPrice),
    ("list_total", Wire.ofAmount figures.listTotal),
    ("discounted_unit_price", Wire.ofAmount figures.discountedUnitPrice),
    ("discounted_total", Wire.ofAmount figures.discountedTotal),
    ("discount_percent", Wire.ofAmount figures.discountPercent)]

/--
The form of a charge. The price figures are members of it.
-/
def AddonCharge.toJson (charge : AddonCharge α) : Json α :=
  .object <|
    [("addon_id", .string charge.addonId), ("name", .string charge.name)]
      ++ Wire.member? "units" Wire.ofAmount charge.units
      ++ charge.figures.toMembers

def CoreOutput.toJson (core : CoreOutput α) : Json α :=
  .object [("columns", Wire.ofMap Wire.ofAmount core.columns),
    ("final_total", Wire.ofAmount core.total), ("pricing", .object core.pricing.toMembers)]

def CalculateResponse.toJson (response : CalculateResponse α) : Json α :=
  .object [("tier_id", .string response.tierId), ("core_output", response.core.toJson),
    ("addon_output", .list (response.addons.map AddonCharge.toJson)),
    ("total", Wire.ofAmount response.total)]

def CurvePoint.toJson (point : CurvePoint α) : Json α :=
  .object [("sample", Wire.ofAmount point.sample),
    ("prices", Wire.ofMap Wire.ofAmount point.prices)]

def CurvePoint.listToJson (points : List (CurvePoint α)) : Json α :=
  .object [("points", .list (points.map toJson))]

def DrivingFields.toJson (fields : DrivingFields) : Json α :=
  Wire.ofMap (fun keys => .list (keys.map .string)) fields

end Tariff
