import Tariff.Engine
import Tariff.Fault.Message

/-!
This module contains the journal of calculations: what is noted while they run. The journal of a
calculation is a function of its inputs, like the calculation itself, and a calculation does not
depend on it.
-/

namespace Tariff

inductive Severity where
  | debug
  | info
  | warn
  | error
deriving Repr, DecidableEq

def Severity.label : Severity → String
  | debug => "DEBUG"
  | info => "INFO"
  | warn => "WARN"
  | error => "ERROR"

inductive Event (α : Type) where
  | noRow (key : String) (quantity : α)
  | scriptDegraded (key : String) (fault : Fault α)
  | outputDegraded (key : String) (fault : Fault α)
  | noFormula (key : String)
  /-- A formula cannot be parsed, so nothing is known to drive it. -/
  | noFields (key : String) (fault : Fault α)
  | addonGone (id : String)
  /-- A selected addon was selected without a quantity. -/
  | addonIdle (id : String)
  | addonSkipped (id : String) (fault : ReferenceFault)
  | noDomain (tiers : Nat)
  | rendering (samples : Nat) (low high : α)
  | tierFailed (id : String) (sample : α) (fault : Fault α)
  | addonFailed (id : String) (sample : α) (fault : Fault α)
  | ready (tiers addons : Nat)
  /-- A discount is not on the metric that drives the total. -/
  | discountIgnored (key tierId : String)
  | curveAddonGone (id : String)

namespace Event

def severity {α : Type} : Event α → Severity
  | noRow .. | addonIdle _ | rendering .. | discountIgnored .. => .debug
  | ready .. => .info
  | outputDegraded .. => .error
  | _ => .warn

def message : Event Float → String
  | noRow key quantity =>
    "No row for " ++ key ++ " = " ++ showAmount quantity ++ " in curve mode"
  | scriptDegraded key fault => "Script output '" ++ key ++ "' degraded to 0: " ++ fault.message
  | outputDegraded key fault => "Output '" ++ key ++ "' degraded to 0: " ++ fault.message
  | noFormula key => "Output '" ++ key ++ "' has neither a formula nor a script"
  | noFields key fault => "No driving fields for '" ++ key ++ "': " ++ fault.message
  | addonGone id => "Skipping addon '" ++ id ++ "': it no longer exists"
  | addonIdle id => "Addon '" ++ id ++ "' selected without a quantity"
  | addonSkipped id fault => "Skipping addon '" ++ id ++ "': " ++ fault.message
  | noDomain tiers => "No lookup domain across " ++ Nat.repr tiers ++ " tier(s); empty curve"
  | rendering samples low high =>
    "Rendering " ++ Nat.repr samples ++ " samples over [" ++ showAmount low ++ ", "
      ++ showAmount high ++ "]"
  | tierFailed id sample fault =>
    "Tier '" ++ id ++ "' at " ++ showAmount sample ++ ": " ++ fault.message
  | addonFailed id sample fault =>
    "Addon '" ++ id ++ "' at " ++ showAmount sample ++ ": " ++ fault.message
  | ready tiers addons =>
    "Pricing engine ready: " ++ Nat.repr tiers ++ " tier(s), " ++ Nat.repr addons ++ " addon(s)"
  | discountIgnored key tierId =>
    "Ignoring discount on '" ++ key ++ "': not the primary metric of '" ++ tierId ++ "'"
  | curveAddonGone id => "Skipping addon '" ++ id ++ "' on curve: it no longer exists"

def line (event : Event Float) : String :=
  event.severity.label ++ " " ++ event.message

end Event

namespace Journal

variable {α : Type} [Amount α]

def resolve (table : RateTable α) (key : String) (quantity : α) (mode : Mode) : List (Event α) :=
  match table.resolve key quantity mode with
  | .ok none => [.noRow key quantity]
  | _ => []

def resolveGiven (table : RateTable α) (quantities : Quantities α) (key : String) (mode : Mode) :
    List (Event α) :=
  match quantities.find? key with
  | some quantity => resolve table key quantity mode
  | none => []

/--
The journal of computing an output column, up to its value or its fault.
-/
def columnValue (table : RateTable α) (column : Column) (quantities : Quantities α) (mode : Mode) :
    List (Event α) :=
  match column.script, column.formula with
  | some script, _ => resolveGiven table quantities script.lookupKey mode
  | none, none => [.noFormula column.key]
  | none, some text =>
    match (Formula.parse text : Except (Formula.ParseError α) (Formula α)) with
    | .ok { key := some key, .. } => resolveGiven table quantities key mode
    | _ => []

/--
What is noted if the fault of an output column makes it count as zero.
-/
def degraded (evaluator : Evaluator) (column : Column) (fault : Fault α) : List (Event α) :=
  if evaluator.degrades column fault then
    if column.script.isSome then [.scriptDegraded column.key fault]
    else [.outputDegraded column.key fault]
  else
    []

/--
The journal of computing output columns in their order, up to the first fault that propagates.
-/
def columns (evaluator : Evaluator) (table : RateTable α) (quantities : Quantities α) (mode : Mode)
    (discounted : Option α) : List Column → List (Event α)
  | [] => []
  | column :: rest =>
    let events := columnValue table column quantities mode
    match evaluator.columnValue table column quantities mode discounted with
    | .ok _ => events ++ columns evaluator table quantities mode discounted rest
    | .error fault =>
      events ++ degraded evaluator column fault
        ++ if evaluator.degrades column fault then
            columns evaluator table quantities mode discounted rest
          else
            []

def evaluate (evaluator : Evaluator) (table : RateTable α) (quantities : Quantities α) (mode : Mode)
    (discounted : Option α := none) : List (Event α) :=
  columns evaluator table quantities mode discounted table.outputColumns

def drivingFields (table : RateTable α) : List (Event α) :=
  table.outputColumns.flatMap fun column =>
    match column.script, column.formula with
    | none, some text =>
      match (Formula.parse text : Except (Formula.ParseError α) (Formula α)) with
      | .ok _ => []
      | .error error => [.noFields column.key (.parse error)]
    | _, _ => []

def addonTable (evaluator : Evaluator) (addon : Addon α) (quantity : AddonQuantity α) (mode : Mode)
    (discounted : Option α) : List (Event α) :=
  match addon.isCustomMetric, addon.tableInputs quantity with
  | true, .ok (table, quantities) => evaluate evaluator table quantities mode discounted
  | _, _ => []

def listPrice (evaluator : Evaluator) (addon : Addon α) (quantity : AddonQuantity α) (mode : Mode) :
    List (Event α) :=
  addonTable evaluator addon quantity mode none

/--
The unit price at which a discount asks for a new total.
-/
def repricedAt? (discount : Option (Discount α)) : Option α :=
  match discount with
  | some { total := none, unitPrice } => unitPrice
  | _ => none

def charge (evaluator : Evaluator) (addon : Addon α) (selection : Selection α) (core : α)
    (mode : Mode) : List (Event α) :=
  match selection.quantity? with
  | none => []
  | some quantity =>
    let events := listPrice evaluator addon quantity mode
    match addon.listPrice evaluator quantity core mode, repricedAt? selection.discount with
    | .ok _, some unitPrice => events ++ addonTable evaluator addon quantity mode (some unitPrice)
    | _, _ => events

/--
The journal of the charges for all selections, up to the first fault that propagates.
-/
def chargeAll (evaluator : Evaluator) (addons : List (Addon α)) (core : α) (mode : Mode) :
    List (Selection α) → List (Event α)
  | [] => []
  | selection :: rest =>
    match Addon.find? addons selection.addonId with
    | none => .addonGone selection.addonId :: chargeAll evaluator addons core mode rest
    | some addon =>
      let events := charge evaluator addon selection core mode
      match addon.charge? evaluator selection core mode with
      | .ok (some _) => events ++ chargeAll evaluator addons core mode rest
      | .ok none => events ++ .addonIdle addon.id :: chargeAll evaluator addons core mode rest
      | .error (.missingReference fault) =>
        events ++ .addonSkipped addon.id fault :: chargeAll evaluator addons core mode rest
      | .error _ => events

def samplePrice (evaluator : Evaluator) (addons : List (Addon α × α)) (sample : α) (tier : Tier α) :
    List (Event α) :=
  let core := tier.corePrice evaluator sample
  let tierEvents :=
    match core with
    | .ok _ => []
    | .error fault => [.tierFailed tier.id sample fault]
  let addonEvents := addons.flatMap fun (addon, units) =>
    let events := listPrice evaluator addon (.units units) .curve
    match addon.listPrice evaluator (.units units) (core.toOption.getD Amount.zero) .curve with
    | .ok _ => events
    | .error fault => events ++ [.addonFailed addon.id sample fault]
  evaluate evaluator tier.table (tier.sampleQuantities sample) .curve ++ tierEvents ++ addonEvents

def renderCurve (evaluator : Evaluator) (count : Nat) (tiers : List (Tier α))
    (addons : List (Addon α × α)) : List (Event α) :=
  match Tier.domain? tiers with
  | none => [.noDomain tiers.length]
  | some domain =>
    let samples := samplePoints domain.low domain.high count
    .rendering samples.length domain.low domain.high
      :: samples.flatMap fun sample => tiers.flatMap (samplePrice evaluator addons sample)

namespace Engine

def new (engine : Engine α) : List (Event α) :=
  [.ready engine.model.tiers.length engine.model.addons.length]

def corePrice (engine : Engine α) (table : RateTable α) (request : CalculateRequest α) :
    List (Event α) :=
  let events := evaluate engine.evaluator table request.quantities .exact
  match engine.evaluator.evaluate table request.quantities .exact with
  | .error _ => events
  | .ok _ =>
    let ignored := request.discounts.keys.filter (some · != table.primaryKey?)
    let repriced :=
      match repricedAt? (table.primaryKey?.bind request.discounts.find?) with
      | some unitPrice => evaluate engine.evaluator table request.quantities .exact (some unitPrice)
      | none => []
    events ++ ignored.map (.discountIgnored · request.tierId) ++ repriced

def calculate (engine : Engine α) (request : CalculateRequest α) : List (Event α) :=
  match engine.tier request.tierId with
  | .error _ => []
  | .ok tier =>
    let events := corePrice engine tier.table request
    match engine.corePrice tier.table request.quantities request.discounts with
    | .error _ => events
    | .ok core =>
      events ++ chargeAll engine.evaluator engine.model.addons core.total .exact request.addons

def curve (engine : Engine α) (request : CurveRequest α) : List (Event α) :=
  match engine.curveTiers request.tierIds with
  | .error _ => []
  | .ok tiers =>
    let gone := request.addons.filter fun addon => (engine.model.addon? addon.addonId).isNone
    gone.map (.curveAddonGone ·.addonId)
      ++ renderCurve engine.evaluator engine.config.sampleCount tiers
          (engine.curveAddons request.addons)

def tierFields (engine : Engine α) (tierId : String) : List (Event α) :=
  (engine.model.tier? tierId).elim [] fun tier => drivingFields tier.table

def addonFields (engine : Engine α) (addonId : String) : List (Event α) :=
  ((engine.model.addon? addonId).bind (·.customTable)).elim [] drivingFields

end Engine

end Journal

end Tariff
