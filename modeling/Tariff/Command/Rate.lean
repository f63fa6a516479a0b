import Tariff.Command.Arguments
import Tariff.Command.Directory
import Tariff.Command.Outcome
import Tariff.Decimal.Numeral
import Tariff.Fault.Message
import Tariff.Json.Writer
import Tariff.Table.Load
import Tariff.Wire.Request

/-!
This module contains the command that answers requests against a pricing model: prices, curves and
driving fields.
-/

namespace Tariff.Command

inductive Task where
  | calculate (request : Option String)
  | curve (request : Option String)
  | fields (tier addon : Option String)
deriving Repr, DecidableEq

structure Rate where
  model : String
  config : Option String
  /-- Files with rows for tiers, each as `TIER=PATH`. -/
  rows : List String
  task : Task
deriving Repr, DecidableEq

namespace Rate

def usage : Usage where
  parameters := [
    { long := "model", short := some 'm', accepts := isPath },
    { long := "config", short := some 'c', accepts := isPath },
    { long := "rows", repeatable := true }]
  hasVersion := true
  hasTasks := true

def requestUsage : Usage where
  parameters := []
  words := [isPath]

def fieldsUsage : Usage where
  parameters := [{ long := "tier" }, { long := "addon" }]

def parseTask : List String → Except Stop Task
  | "calculate" :: arguments => do
    let (given, _) ← scan requestUsage {} arguments
    return .calculate given.words.head?
  | "curve" :: arguments => do
    let (given, _) ← scan requestUsage {} arguments
    return .curve given.words.head?
  | "fields" :: arguments => do
    let (given, _) ← scan fieldsUsage {} arguments
    match given.value? "tier", given.value? "addon" with
    | some _, some _ => throw .misuse
    | tier, addon => return .fields tier addon
  | _ => .error .misuse

def parse (arguments : List String) : Except Stop Rate := do
  let (given, rest) ← scan usage {} arguments
  let task ← parseTask rest
  match given.value? "model" with
  | none => throw .misuse
  | some model =>
    return { model, config := given.value? "config", rows := given.valuesOf "rows", task }

def splitAssignment? (text : String) : Option (String × String) :=
  let cs := text.toList
  let name := cs.takeWhile (· != '=')
  match cs.drop name.length with
  | [] => none
  | _ :: value => some (.ofList name, .ofList value)

def requestPath? (rate : Rate) : Option String :=
  match rate.task with
  | .calculate request | .curve request => request
  | .fields .. => none

def needsInput (rate : Rate) : Bool :=
  match rate.task with
  | .calculate request | .curve request => request.isNone
  | .fields .. => false

/--
The files that the command reads if they exist.
-/
def paths (rate : Rate) : List String :=
  rate.model :: rate.config.toList ++ rate.requestPath?.toList
    ++ rate.rows.filterMap fun rows => (splitAssignment? rows).map (·.2)

def loadModel (directory : Directory) (path : String) : Except String (PricingModel Float) :=
  match (directory.read? path).map PricingModel.load with
  | some (.ok model) => .ok model
  | _ => .error ("Failed to load pricing model " ++ path)

def loadRows (directory : Directory) (model : PricingModel Float) (rows : String) :
    Except String (PricingModel Float) :=
  match splitAssignment? rows with
  | none => .error ("Expected TIER=PATH, got '" ++ rows ++ "'")
  | some (id, path) =>
    match model.tier? id with
    | none => .error ("Unknown tier '" ++ id ++ "' in --rows")
    | some tier =>
      let load (text : String) :=
        RateTable.load Decimal.readNumber? tier.table.columns text.toUTF8.toList
      match (directory.read? path).map load with
      | some (.ok table) => .ok (model.withTable id table)
      | _ => .error ("Failed to load rows for '" ++ id ++ "' from " ++ path)

def loadConfig (directory : Directory) : Option String → Except String EngineConfig
  | none => .ok {}
  | some path =>
    match (directory.read? path).map (EngineConfig.load (α := Float)) with
    | some (.ok config) => .ok config
    | _ => .error ("Failed to load engine config " ++ path)

def makeEngine (model : PricingModel Float) (config : EngineConfig) :
    Except String (Engine Float) :=
  (Engine.new model config).mapError fun _ => "Invalid pricing model"

def readRequest {β : Type} (decode : Wire.Decoder Float β) (directory : Directory) (input : String)
    (path : Option String) : Except String β := do
  let text ←
    match path with
    | none => pure input
    | some path =>
      match directory.read? path with
      | some text => pure text
      | none => throw ("Failed to open " ++ path)
  match Wire.fromText decode text with
  | .ok request => return request
  | .error _ => throw "Malformed request JSON"

inductive Requests where
  | batch (requests : List (CalculateRequest Float))
  | single (request : CalculateRequest Float)

/--
Decode requests for prices. A list is a list of requests if it can be one, and else a single request
as the list of its parts.
-/
def Requests.ofJson : Wire.Decoder Float Requests :=
  Wire.whole fun origin allowance draft =>
    match Wire.list CalculateRequest.ofJson origin allowance draft with
    | .ok requests => .ok (.batch requests)
    | .error _ => do
      let request ← CalculateRequest.ofJson origin allowance draft
      return .single request

def calculate (engine : Engine Float) (request : CalculateRequest Float) :
    Except String (Json Float) :=
  match engine.calculate request with
  | .ok response => .ok response.toJson
  | .error _ => .error ("Calculation failed for tier '" ++ request.tierId ++ "'")

def answer (engine : Engine Float) (directory : Directory) (input : String) :
    Task → Except String (Json Float)
  | .calculate path => do
    match ← readRequest Requests.ofJson directory input path with
    | .single request => calculate engine request
    | .batch requests =>
      let responses ← requests.mapM (calculate engine)
      return .list responses
  | .curve path => do
    let request ← readRequest CurveRequest.ofJson directory input path
    let points ← (engine.curve request).mapError Fault.message
    return CurvePoint.listToJson points
  | .fields (some tier) _ => do
    let fields ← (engine.drivingFields tier).mapError Fault.message
    return DrivingFields.toJson fields
  | .fields none (some addon) => do
    let fields ← (engine.addonFields addon).mapError Fault.message
    return DrivingFields.toJson fields
  | .fields none none => .error "Pass --tier or --addon"

def run (rate : Rate) (directory : Directory) (input : String) : Outcome :=
  let json := do
    let model ← loadModel directory rate.model
    let model ← rate.rows.foldlM (loadRows directory) model
    let config ← loadConfig directory rate.config
    let engine ← makeEngine model config
    answer engine directory input rate.task
  match json with
  | .ok json => .success (json.pretty.splitOn "\n")
  | .error message => .failed message

def stopped : Stop → Outcome
  | .misuse => .misuse
  | .version => .success ["rating_engine 0.1.0"]

def execute (arguments : List String) (directory : Directory) (input : String) : Outcome :=
  match parse arguments with
  | .ok rate => rate.run directory input
  | .error stop => stopped stop

end Rate

end Tariff.Command
