import Tariff.Lookup

/-!
This module contains the evaluation of scripts. Every row a script reads costs one step, and the
number of steps is limited.
-/

namespace Tariff.Script

variable {α : Type}

def validate (script : Script) (table : RateTable α) : Except ScriptFault Unit := do
  match script with
  | threePartCurve thresholdKey feeKey overageKey =>
    if table.kind? thresholdKey != some .threshold then
      throw (.notThreshold thresholdKey)
    requireValue feeKey
    requireValue overageKey
  | graduated rangeKey rateKey =>
    if !table.isLookup rangeKey then
      throw (.notLookup rangeKey)
    requireValue rateKey
where
  requireValue (key : String) : Except ScriptFault Unit :=
    match table.kind? key with
    | some kind => if kind.isValue then .ok () else .error (.notValue key kind)
    | none => .error (.unknownColumn key)

variable [Amount α]

/--
A number of a row. Where a discounted unit price is given, it stands in for the number of every rate
column.
-/
def field (table : RateTable α) (discounted : Option α) (index : Nat) (row : Row α) (key : String) :
    Except (Fault α) α :=
  match discounted, table.kind? key with
  | some rate, some .rate => .ok rate
  | _, _ =>
    match row.number? key with
    | some x => .ok x
    | none => .error (.expression (.noNumber index key))

def step (limit left : Nat) : Except (Fault α) Nat :=
  match left with
  | 0 => .error (.budgetExceeded limit)
  | left + 1 => .ok left

/--
The units where the band of a row begins and ends. A band begins where the one before ends, even if
the row's own range begins later.
-/
def band (table : RateTable α) (discounted : Option α) (rangeKey : String) (start : Option α)
    (index : Nat) (row : Row α) : Except (Fault α) (Range α) :=
  match table.kind? rangeKey with
  | some .metricRange =>
    match row.range? rangeKey with
    | some range => .ok { low := start.getD range.low, high := range.high }
    | none => .error (.expression (.noRange index rangeKey))
  | _ => do
    let high ← field table discounted index row rangeKey
    return { low := start.getD Amount.zero, high }

def unitsWithin (band : Range α) (quantity : α) : α :=
  Amount.greater (Amount.lesser quantity band.high - band.low) Amount.zero

/--
Add the charges of bands to a total. `start` is where the band before ends.
-/
def charge (table : RateTable α) (discounted : Option α) (rangeKey rateKey : String) (quantity : α)
    (limit : Nat) :
    (left index : Nat) → (start : Option α) → (total : α) → List (Row α) → Except (Fault α) α
  | _, _, _, total, [] => .ok total
  | left, index, start, total, row :: rows => do
    let left ← step limit left
    let band ← band table discounted rangeKey start index row
    let rate ← field table discounted index row rateKey
    charge table discounted rangeKey rateKey quantity limit left (index + 1) (some band.high)
      (total + unitsWithin band quantity * rate) rows

def evaluate (script : Script) (table : RateTable α) (quantity : α) (mode : Mode) (budget : Nat)
    (discounted : Option α) : Except (Fault α) α := do
  match script with
  | threePartCurve thresholdKey feeKey overageKey =>
    match ← table.resolve thresholdKey quantity mode with
    | none => return Amount.zero
    | some hit =>
      let left ← step budget budget
      let fee ← field table discounted hit.index hit.row feeKey
      match mode, hit.index with
      | .curve, index + 1 =>
        match table.rows[index]? with
        | none => return fee
        | some row =>
          let _ ← step budget left
          let previousFee ← field table discounted index row feeKey
          let overage ← field table discounted index row overageKey
          let threshold ← field table discounted index row thresholdKey
          return Amount.lesser fee (previousFee + overage * (quantity - threshold))
      | _, _ => return fee
  | graduated rangeKey rateKey =>
    match ← table.resolve rangeKey quantity mode with
    | none => return Amount.zero
    | some hit =>
      charge table discounted rangeKey rateKey quantity budget budget 0 none Amount.zero
        (table.rows.take (hit.index + 1))

end Tariff.Script
