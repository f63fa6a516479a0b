import Tariff.Command.Rate
import Tariff.Csv
import Tariff.Decimal.Layout

/-!
This module contains the command that writes the curve of a pricing model as comma-separated
records: one for every sample, with a field for every tier.
-/

namespace Tariff.Command

structure Render where
  model : String
  output : String
  tiers : List String
  /-- Addons with their units, each as `ID` or `ID=UNITS`. -/
  addons : List String
  samples : Option Nat
deriving Repr, DecidableEq

structure Rendering where
  path : String
  text : String
  samples : Nat

namespace Rendering

def summary (rendering : Rendering) (elapsed : String) : String :=
  "Rendered " ++ Nat.repr rendering.samples ++ " samples in " ++ elapsed

def written (rendering : Rendering) (elapsed : String) : Outcome :=
  .success [rendering.summary elapsed,
    "Written " ++ Nat.repr rendering.samples ++ " rows to " ++ rendering.path]

def refused (rendering : Rendering) (elapsed : String) : Outcome :=
  .failed ("Failed to create " ++ rendering.path) [rendering.summary elapsed]

end Rendering

namespace Render

/--
Read a whole number that fits a machine word. A plus sign may come before it.
-/
def count? (text : String) : Option Nat :=
  let digits :=
    match text.toList with
    | '+' :: cs => cs
    | cs => cs
  if digits.isEmpty || !digits.all Char.isDigit then
    none
  else
    let n := Decimal.readDigits digits
    if n < UInt64.size then some n else none

def usage : Usage where
  parameters := [
    { long := "model", short := some 'm', accepts := isPath },
    { long := "output", short := some 'o', accepts := isPath },
    { long := "tier", short := some 't', repeatable := true },
    { long := "addon", short := some 'a', repeatable := true },
    { long := "samples", accepts := fun text => (count? text).isSome }]

def parse (arguments : List String) : Except Stop Render := do
  let (given, _) ← scan usage {} arguments
  match given.value? "model" with
  | none => throw .misuse
  | some model =>
    return {
      model
      output := (given.value? "output").getD "price_curve.csv"
      tiers := given.valuesOf "tier"
      addons := given.valuesOf "addon"
      samples := (given.value? "samples").bind count? }

/--
Read an addon with its units, of which there is one unless another number is given.
-/
def addonUnits (text : String) : Except String (CurveAddon Float) :=
  match Rate.splitAssignment? text with
  | none => .ok { addonId := text, units := Amount.one }
  | some (addonId, units) =>
    match Decimal.readNumber? units with
    | some units => .ok { addonId, units }
    | none => .error ("Invalid units in --addon '" ++ text ++ "'")

def names (points : List (CurvePoint Float)) : List String :=
  (KeyMap.ofList (points.flatMap fun point => point.prices.keys.map (·, ()))).keys

/--
The records of a curve: the names of the tiers, then a record for every sample. Prices have two
decimal places.
-/
def records (points : List (CurvePoint Float)) : List (List String) :=
  let names := names points
  let price (point : CurvePoint Float) (name : String) : String :=
    Decimal.twoPlaces ((point.prices.find? name).getD Amount.zero)
  ("Sample" :: names) :: points.map fun point =>
    showAmount point.sample :: names.map (price point)

def draw (render : Render) (directory : Directory) : Except String Rendering := do
  let model ← Rate.loadModel directory render.model
  let config : EngineConfig := {}
  let sampleCount := render.samples.getD config.sampleCount
  let engine ← Rate.makeEngine model { config with sampleCount }
  let addons ← render.addons.mapM addonUnits
  let points ← (engine.curve { tierIds := render.tiers, addons }).mapError Fault.message
  return { path := render.output, text := Csv.write (records points), samples := points.length }

/--
Run the command in a directory. Also give the directory as it is afterwards.
-/
def execute (arguments : List String) (directory : Directory) (elapsed : String) :
    Outcome × Directory :=
  match parse arguments with
  | .error _ => (.misuse, directory)
  | .ok render =>
    match render.draw directory with
    | .error message => (.failed message, directory)
    | .ok rendering =>
      match directory.write? rendering.path rendering.text with
      | some directory => (rendering.written elapsed, directory)
      | none => (rendering.refused elapsed, directory)

end Render

end Tariff.Command
