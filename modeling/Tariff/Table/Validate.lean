import Tariff.Script

/-!
This module contains the conditions a rate table has to meet: its rows ascend in every column that
selects rows, and everything that formulas and scripts refer to exists.

A formula that cannot be parsed is no reason to refuse a table. It shows when its output is
computed.
-/

namespace Tariff.RateTable

variable {α : Type}

/--
Check that no key occurs twice, given those that came before.
-/
def checkKeys (seen : List String) : List Column → Except (ConfigFault α) Unit
  | [] => .ok ()
  | column :: columns =>
    if column.key ∈ seen then .error (.duplicateColumn column.key)
    else checkKeys (column.key :: seen) columns

variable [Amount α]

/--
Check that every row has a range and that the ranges ascend. A range may begin where the one before
ends.
-/
def checkRanges (key : String) :
    (index : Nat) → (previous : Option (Range α)) → List (Row α) → Except (ConfigFault α) Unit
  | _, _, [] => .ok ()
  | index, previous, row :: rows =>
    match row.range? key with
    | none => .error (.missingRange index key)
    | some range =>
      if range.high < range.low then
        .error (.invertedRange index key range.low range.high)
      else
        match previous.filter (range.low < ·.high) with
        | some before =>
          .error (.overlappingRange index key range.low range.high before.low before.high)
        | none => checkRanges key (index + 1) (some range) rows

def checkThresholds (key : String) :
    (index : Nat) → (previous : Option α) → List (Row α) → Except (ConfigFault α) Unit
  | _, _, [] => .ok ()
  | index, previous, row :: rows =>
    match row.number? key with
    | none => .error (.missingThreshold index key)
    | some bound =>
      match previous.filter (bound ≤ ·) with
      | some before => .error (.unorderedThreshold index key bound before)
      | none => checkThresholds key (index + 1) (some bound) rows

def checkLookupColumn (table : RateTable α) (column : Column) : Except (ConfigFault α) Unit :=
  match column.kind with
  | .metricRange => checkRanges column.key 0 none table.rows
  | .threshold => checkThresholds column.key 0 none table.rows
  | _ => .ok ()

def checkRole (table : RateTable α) (role : Role) : Except (ConfigFault α) Unit :=
  if (table.outputColumns.filter (·.role == some role)).length > 1 then
    .error (.duplicateRole role)
  else
    .ok ()

def checkFormula (table : RateTable α) (column : Column) : Except (ConfigFault α) Unit :=
  match column.formula.map (Formula.parse (α := α)) with
  | some (.ok { key := some key, .. }) =>
    if table.isLookup key then .ok () else .error (.badLookup column.key key)
  | _ => .ok ()

def checkScript (table : RateTable α) (column : Column) : Except (ConfigFault α) Unit :=
  match column.script with
  | some script => (script.validate table).mapError (.badScript column.key)
  | none => .ok ()

def validate (table : RateTable α) : Except (ConfigFault α) Unit := do
  checkKeys [] table.columns
  table.lookupColumns.forM table.checkLookupColumn
  table.checkRole .total
  table.checkRole .unitPrice
  table.outputColumns.forM fun column => do
    table.checkFormula column
    table.checkScript column

end Tariff.RateTable
