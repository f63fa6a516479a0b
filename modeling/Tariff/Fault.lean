import Tariff.Formula.Token
import Tariff.Json.Basic
import Tariff.Table.Kind

/-!
This module contains the ways a calculation can fail. A fault carries what it is about; the wording
is in `Tariff.Fault.Message`.
-/

namespace Tariff

inductive ExpressionFault (α : Type) where
  | unknownName (name : String)
  | divisionByZero
  | notFinite (value : α)
  | notLookup (key : String)
  | noQuantity (key : String)
  | noNumber (row : Nat) (key : String)
  | noRange (row : Nat) (key : String)
deriving Repr

inductive ScriptFault where
  | notThreshold (key : String)
  | notLookup (key : String)
  /-- A column whose cells are read has a kind without values. -/
  | notValue (key : String) (kind : ColumnKind)
  | unknownColumn (key : String)
deriving Repr, DecidableEq

inductive ConfigFault (α : Type) where
  | duplicateColumn (key : String)
  | missingRange (row : Nat) (key : String)
  | invertedRange (row : Nat) (key : String) (low high : α)
  | overlappingRange (row : Nat) (key : String) (low high previousLow previousHigh : α)
  | missingThreshold (row : Nat) (key : String)
  | unorderedThreshold (row : Nat) (key : String) (value previous : α)
  | duplicateRole (role : Role)
  | badLookup (output key : String)
  | badScript (output : String) (fault : ScriptFault)
  /-- The columns of a range are missing from loaded rows. -/
  | missingBounds (key : String)
  /-- A loaded cell that has to be a number is none. -/
  | notNumber (line : Nat) (text : String) (header : String)
  | duplicateTier (id : String)
  | duplicateTierName (id name : String)
  | tier (id : String) (fault : ConfigFault α)
  | badPercentage (id : String)
  | invertedBounds (id : String) (low high : α)
  | addon (id : String) (fault : ConfigFault α)
  | sampleCount (count : Nat)
  | noSteps
deriving Repr

inductive ReferenceFault where
  | unknownAddon (id : String)
  | noTable (id : String)
  | noMetric (id : String)
  | noUnits (id : String)
  | noModel (id : String)
deriving Repr, DecidableEq

inductive Fault (α : Type) where
  /-- A quantity lies outside all rows. -/
  | rangeExceeded (quantity low high : α)
  /-- A quantity lies between two rows. -/
  | rangeGap (quantity below above : α)
  | parse (error : Formula.ParseError α)
  | expression (fault : ExpressionFault α)
  | missingReference (fault : ReferenceFault)
  | budgetExceeded (limit : Nat)
  | config (fault : ConfigFault α)
  | unknownTier (id : String)
deriving Repr

namespace Fault

variable {α : Type}

def isRangeMiss : Fault α → Bool
  | rangeExceeded .. | rangeGap .. => true
  | _ => false

/--
Whether the configuration of a single output is defective.
-/
def isDefect : Fault α → Bool
  | parse _ | expression _ | budgetExceeded _ => true
  | _ => false

end Fault

inductive LoadFault (α : Type) where
  | json (fault : Json.Fault)
  | unequalLengths (expected found : Nat)
  | notText
  | config (fault : ConfigFault α)
deriving Repr

end Tariff
