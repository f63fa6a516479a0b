import Tariff.Formula.Eval
import Tariff.Script

/-!
This module contains the evaluation of all output columns of a rate table.

A defect of one output does not take the others down: the output counts as zero. What propagates is
a quantity without a row, and with strict evaluation also a defective formula.
-/

namespace Tariff

/--
The quantities that are asked for, by the keys of their metrics.
-/
abbrev Quantities (α : Type) := KeyMap α

structure PriceResult (α : Type) where
  columns : KeyMap α
  total : α

structure Evaluator where
  stepBudget : Nat := 10000
  strict : Bool := false
deriving Repr, DecidableEq

namespace Evaluator

variable {α : Type} [Amount α]

def required (quantities : Quantities α) (key : String) : Except (Fault α) α :=
  match quantities.find? key with
  | some quantity => .ok quantity
  | none => .error (.expression (.noQuantity key))

/--
Bind the keys of all rate columns to a discounted unit price, if there is one.
-/
def withDiscounted (table : RateTable α) (discounted : Option α) (bindings : Bindings α) :
    Bindings α :=
  match discounted with
  | some rate => table.rateKeys.foldl (fun bindings key => bindings.insert key rate) bindings
  | none => bindings

/--
Evaluate a formula. With a lookup key, the numbers of the row that is found come before quantities
other than the key's own; a quantity without a row counts as zero.
-/
def formulaValue (table : RateTable α) (formula : Formula α) (quantities : Quantities α)
    (mode : Mode) (discounted : Option α) : Except (Fault α) α := do
  match formula.key with
  | none =>
    let bindings := withDiscounted table discounted quantities
    (formula.expr.evaluate bindings).mapError .expression
  | some key =>
    let quantity ← required quantities key
    match ← table.resolve key quantity mode with
    | none => return Amount.zero
    | some hit =>
      let bindings := (hit.row.numbers.orElse quantities).insert key quantity
      let bindings := withDiscounted table discounted bindings
      (formula.expr.evaluate bindings).mapError .expression

/--
Evaluate an output column. A column with neither script nor formula counts as zero.
-/
def columnValue (evaluator : Evaluator) (table : RateTable α) (column : Column)
    (quantities : Quantities α) (mode : Mode) (discounted : Option α) : Except (Fault α) α := do
  match column.script, column.formula with
  | some script, _ =>
    let quantity ← required quantities script.lookupKey
    script.evaluate table quantity mode evaluator.stepBudget discounted
  | none, none => return Amount.zero
  | none, some text =>
    let formula ← (Formula.parse text).mapError .parse
    formulaValue table formula quantities mode discounted

/--
Whether the fault of a column makes it count as zero.
-/
def degrades (evaluator : Evaluator) (column : Column) (fault : Fault α) : Bool :=
  (column.script.isSome && !fault.isRangeMiss) || (fault.isDefect && !evaluator.strict)

def columnResult (evaluator : Evaluator) (table : RateTable α) (column : Column)
    (quantities : Quantities α) (mode : Mode) (discounted : Option α) : Except (Fault α) α :=
  match evaluator.columnValue table column quantities mode discounted with
  | .ok value => .ok value
  | .error fault => if evaluator.degrades column fault then .ok Amount.zero else .error fault

/--
The total of a table with given outputs: the column with that role, or else the sum of all outputs.
-/
def totalOf (table : RateTable α) (columns : KeyMap α) : α :=
  match table.outputWith? .total with
  | some total => (columns.find? total.key).getD Amount.zero
  | none => Amount.sum columns.values

/--
Evaluate a table. Where a discounted unit price is given, it stands in for all rates.
-/
def evaluate (evaluator : Evaluator) (table : RateTable α) (quantities : Quantities α) (mode : Mode)
    (discounted : Option α := none) : Except (Fault α) (PriceResult α) := do
  let columns ← table.outputColumns.foldlM (fun (columns : KeyMap α) column => do
    let value ← evaluator.columnResult table column quantities mode discounted
    return columns.insert column.key value) ∅
  return { columns, total := totalOf table columns }

/--
The unit price before discounts: the column with that role, or else the total divided by the
quantity of the metric that drives it.
-/
def unitPrice (table : RateTable α) (result : PriceResult α) (quantities : Quantities α) : α :=
  match table.outputWith? .unitPrice with
  | some column => (result.columns.find? column.key).getD Amount.zero
  | none =>
    let quantity := (table.primaryKey?.bind quantities.find?).getD Amount.zero
    if Amount.zero < quantity then result.total / quantity else result.total

end Evaluator

end Tariff
