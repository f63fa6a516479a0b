import Tariff.Fault
import Tariff.Model
import Tariff.Wire.Table

/-!
This module contains the JSON form of pricing models.
-/

namespace Tariff

variable {α : Type} [Amount α]

namespace PriceModel

def toJson : PriceModel α → Json α
  | fixed fee => .object [("type", .string "fixed"), ("fee", Wire.ofAmount fee)]
  | percentage percent min max =>
    .object [("type", .string "percentage"), ("pct", Wire.ofAmount percent),
      ("min", Wire.ofOptional Wire.ofAmount min), ("max", Wire.ofOptional Wire.ofAmount max)]

def variant? (type : String) : Option (Wire.Decoder α (PriceModel α)) :=
  match type with
  | "fixed" =>
    some <| Wire.record [["fee"]] fun parts => fixed <$> parts.required "fee" Wire.amount
  | "percentage" =>
    some <| Wire.record [["pct"], ["min"], ["max"]] fun parts =>
      percentage
        <$> parts.required "pct" Wire.amount
        <*> parts.optional "min" Wire.amount
        <*> parts.optional "max" Wire.amount
  | _ => none

def ofJson : Wire.Decoder α (PriceModel α) :=
  Wire.tagged variant?

end PriceModel

namespace Addon

def toJson (addon : Addon α) : Json α :=
  .object [("id", .string addon.id), ("name", .string addon.name),
    ("is_custom_metric", .bool addon.isCustomMetric),
    ("model", Wire.ofOptional PriceModel.toJson addon.model),
    ("custom_table", Wire.ofOptional RateTable.toJson addon.customTable)]

def ofJson : Wire.Decoder α (Addon α) :=
  Wire.record [["id"], ["name"], ["is_custom_metric", "isCustomMetric"],
    ["model", "fixedOrPercentModel"], ["custom_table", "customTable"]] fun parts =>
      Addon.mk
        <$> parts.required "id" Wire.string
        <*> parts.withDefault "name" Wire.string ""
        <*> parts.withDefault "is_custom_metric" Wire.bool false
        <*> parts.optional "model" PriceModel.ofJson
        <*> parts.optional "custom_table" RateTable.ofJson

end Addon

namespace Tier

def toJson (tier : Tier α) : Json α :=
  .object [("id", .string tier.id), ("name", .string tier.name), ("table", tier.table.toJson)]

def ofJson : Wire.Decoder α (Tier α) :=
  Wire.record [["id"], ["name"], ["table"]] fun parts =>
    Tier.mk
      <$> parts.required "id" Wire.string
      <*> parts.withDefault "name" Wire.string ""
      <*> parts.required "table" RateTable.ofJson

end Tier

namespace PricingModel

def toJson (model : PricingModel α) : Json α :=
  .object [("tiers", .list (model.tiers.map Tier.toJson)),
    ("addons", .list (model.addons.map Addon.toJson))]

def ofJson : Wire.Decoder α (PricingModel α) :=
  Wire.record [["tiers"], ["addons"]] fun parts =>
    PricingModel.mk
      <$> parts.required "tiers" (Wire.list Tier.ofJson)
      <*> parts.withDefault "addons" (Wire.list Addon.ofJson) []

def load (text : String) : Except (LoadFault α) (PricingModel α) := do
  let model ← (Wire.fromText ofJson text).mapError .json
  model.validate.mapError .config
  return model

end PricingModel

end Tariff
