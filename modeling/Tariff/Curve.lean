import Tariff.Model

/-!
This module contains curves: prices at sample quantities across the quantities that tiers have rows
for. Everything that has no price at a sample counts as zero there.
-/

namespace Tariff

def maxSampleCount : Nat := 100

structure CurvePoint (α : Type) where
  sample : α
  prices : KeyMap α

variable {α : Type} [Amount α]

/--
Sample quantities up to `high`, which is always the last. They are whole steps apart; the first is
`low`, or one step if `low` is not positive.
-/
def samplePoints (low high : α) (count : Nat) : List α :=
  let count := max 1 (min count maxSampleCount)
  let step := Amount.greater (Amount.ceil (high / Amount.ofNat count)) Amount.one
  let start := if Amount.zero < low then low else step
  let points := (List.range (count - 1)).map fun index => start + step * Amount.ofNat index
  points.takeWhile (fun point => !decide (high ≤ point)) ++ [high]

namespace Tier

def domain? (tiers : List (Tier α)) : Option (Range α) :=
  RateTable.hull? (tiers.filterMap (·.table.domain?))

/--
The quantities at a sample: every metric of the tier has that quantity.
-/
def sampleQuantities (tier : Tier α) (sample : α) : Quantities α :=
  .ofList (tier.table.lookupColumns.map fun column => (column.key, sample))

def corePrice (evaluator : Evaluator) (tier : Tier α) (sample : α) : Except (Fault α) α := do
  let result ← evaluator.evaluate tier.table (tier.sampleQuantities sample) .curve
  return result.total

def samplePrice (evaluator : Evaluator) (addons : List (Addon α × α)) (sample : α)
    (tier : Tier α) : α :=
  let core := (tier.corePrice evaluator sample).toOption.getD Amount.zero
  addons.foldl (fun price (addon, units) =>
    match addon.listPrice evaluator (.units units) core .curve with
    | .ok (_, total) => price + total
    | .error _ => price) core

end Tier

def curvePoint (evaluator : Evaluator) (tiers : List (Tier α)) (addons : List (Addon α × α))
    (sample : α) : CurvePoint α where
  sample := sample
  prices := .ofList (tiers.map fun tier =>
    (tier.displayName, tier.samplePrice evaluator addons sample))

/--
The curve of tiers with addons, in ascending order of the samples. There are no points if no tier
has a row.
-/
def renderCurve (evaluator : Evaluator) (count : Nat) (tiers : List (Tier α))
    (addons : List (Addon α × α)) : List (CurvePoint α) :=
  match Tier.domain? tiers with
  | none => []
  | some domain =>
    let samples := samplePoints domain.low domain.high count
    let points := samples.map (curvePoint evaluator tiers addons)
    points.mergeSort fun a b => Amount.sortLe a.sample b.sample

end Tariff
