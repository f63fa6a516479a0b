import Tariff.Table.Basic
import Tariff.Wire.Decode

/-!
This module contains the JSON form of rate tables.
-/

namespace Tariff

variable {α : Type}

/--
The form of a number. A number that is not finite has none, so nothing stands for it.
-/
def Wire.ofAmount [Amount α] (x : α) : Json α :=
  if Amount.isFinite x then .real x else .null

def Wire.ofOptional {β : Type} (encode : β → Json α) : Option β → Json α
  | some value => encode value
  | none => .null

/--
A member that is left out if its value is absent.
-/
def Wire.member? {β : Type} (name : String) (encode : β → Json α) :
    Option β → List (String × Json α)
  | some value => [(name, encode value)]
  | none => []

def Wire.ofMap {β : Type} (encode : β → Json α) (map : KeyMap β) : Json α :=
  .object (map.entries.map fun entry => (entry.1, encode entry.2))

namespace ColumnKind

def name : ColumnKind → String
  | metricRange => "metric-range"
  | threshold => "threshold"
  | rate => "rate"
  | fee => "fee"
  | output => "output"

def named? (name : String) : Option ColumnKind :=
  [metricRange, threshold, rate, fee, output].find? (·.name == name)

end ColumnKind

namespace Role

def name : Role → String
  | unitPrice => "unit_price"
  | total => "total"

def named? (name : String) : Option Role :=
  [unitPrice, total].find? (·.name == name)

end Role

namespace Script

def toJson : Script → Json α
  | threePartCurve thresholdKey feeKey overageKey =>
    .object [("type", .string "three_part_curve"), ("threshold_key", .string thresholdKey),
      ("fee_key", .string feeKey), ("overage_key", .string overageKey)]
  | graduated rangeKey rateKey =>
    .object [("type", .string "graduated"), ("range_key", .string rangeKey),
      ("rate_key", .string rateKey)]

def variant? (type : String) : Option (Wire.Decoder α Script) :=
  match type with
  | "three_part_curve" =>
    some <| Wire.record [["threshold_key"], ["fee_key"], ["overage_key"]] fun parts =>
      threePartCurve
        <$> parts.required "threshold_key" Wire.string
        <*> parts.required "fee_key" Wire.string
        <*> parts.required "overage_key" Wire.string
  | "graduated" =>
    some <| Wire.record [["range_key"], ["rate_key"]] fun parts =>
      graduated
        <$> parts.required "range_key" Wire.string
        <*> parts.required "rate_key" Wire.string
  | _ => none

def ofJson : Wire.Decoder α Script :=
  Wire.tagged variant?

end Script

namespace Column

mutual

/--
The form of a column. Parts that are absent or empty are left out.
-/
def toJson : Column → Json α
  | ⟨name, key, kind, subColumns, formula, script, role⟩ =>
    .object <|
      [("name", .string name), ("key", .string key), ("kind", .string kind.name)]
        ++ (if subColumns.isEmpty then [] else [("sub_columns", .list (listToJson subColumns))])
        ++ Wire.member? "formula" .string formula
        ++ Wire.member? "script" Script.toJson script
        ++ Wire.member? "role" (.string ·.name) role

def listToJson : List Column → List (Json α)
  | [] => []
  | column :: columns => column.toJson :: listToJson columns

end

/--
Decode a column in which `bound` columns may be nested. Every column takes up two levels of the
allowance, so the allowance is a bound.
-/
def ofJsonWithin : (bound : Nat) → Wire.Decoder α Column
  | 0 => fun _ _ _ => .error .malformed
  | bound + 1 =>
    Wire.record [["name"], ["key"], ["kind"], ["sub_columns"], ["formula"], ["script"], ["role"]]
      fun parts =>
        Column.mk
          <$> parts.required "name" Wire.string
          <*> parts.required "key" Wire.string
          <*> parts.required "kind" (Wire.oneOf ColumnKind.named?)
          <*> parts.withDefault "sub_columns" (Wire.list (ofJsonWithin bound)) []
          <*> parts.optional "formula" Wire.string
          <*> parts.optional "script" Script.ofJson
          <*> parts.optional "role" (Wire.oneOf Role.named?)

def ofJson : Wire.Decoder α Column :=
  fun origin allowance => ofJsonWithin (allowance + 1) origin allowance

end Column

variable [Amount α]

def Range.ofJson : Wire.Decoder α (Range α) :=
  Wire.record [["low"], ["high"]] fun parts =>
    Range.mk <$> parts.required "low" Wire.amount <*> parts.required "high" Wire.amount

namespace Cell

def toJson : Cell α → Json α
  | number value => Wire.ofAmount value
  | range r => .object [("low", Wire.ofAmount r.low), ("high", Wire.ofAmount r.high)]
  | text value => .string value

/--
Decode a cell: a number, else a range, else a text.
-/
def ofJson : Wire.Decoder α (Cell α) :=
  Wire.whole fun origin allowance draft =>
    match Wire.amount origin allowance draft with
    | .ok value => .ok (.number value)
    | .error _ =>
      match Range.ofJson origin allowance draft with
      | .ok value => .ok (.range value)
      | .error _ => do
        let value ← Wire.string origin allowance draft
        return .text value

end Cell

namespace Row

def toJson (row : Row α) : Json α :=
  Wire.ofMap Cell.toJson row.cells

def ofJson : Wire.Decoder α (Row α) :=
  fun origin allowance draft => do
    let cells ← Wire.map Cell.ofJson origin allowance draft
    return { cells }

end Row

namespace RateTable

def toJson (table : RateTable α) : Json α :=
  .object [("columns", .list (table.columns.map Column.toJson)),
    ("values", .list (table.rows.map Row.toJson))]

def ofJson : Wire.Decoder α (RateTable α) :=
  Wire.record [["columns"], ["values", "rows"]] fun parts =>
    RateTable.mk
      <$> parts.required "columns" (Wire.list Column.ofJson)
      <*> parts.required "values" (Wire.list Row.ofJson)

end RateTable

end Tariff
