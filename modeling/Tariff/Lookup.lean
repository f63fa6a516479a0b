import Tariff.Fault
import Tariff.Table.Basic

/-!
This module contains the lookup of the row that prices a quantity.

The rows of a usable table ascend and do not overlap, so at most one row matches, or two if the
quantity is the end of one range and the beginning of the next. In that case the later row is taken.
-/

namespace Tariff

inductive Mode where
  /-- One quantity. A quantity without a row is a fault. -/
  | exact
  /-- The points of a curve. A quantity without a row has no price. -/
  | curve
deriving Repr, DecidableEq

structure Hit (α : Type) where
  index : Nat
  row : Row α

namespace RateTable

variable {α : Type} [Amount α]

def thresholdIndex? (rows : List (Row α)) (key : String) (quantity : α) : Option Nat :=
  rows.findIdx? fun row => (row.number? key).any (quantity ≤ ·)

def covers (key : String) (quantity : α) (row : Row α) : Bool :=
  (row.range? key).any (·.contains quantity)

/--
The first row whose range contains a quantity, or the row after it if that one contains the quantity
too.
-/
def rangeIndex? (rows : List (Row α)) (key : String) (quantity : α) : Option Nat :=
  (rows.findIdx? (covers key quantity)).map fun index =>
    if rows[index + 1]?.any (covers key quantity) then index + 1 else index

/--
The fault of a quantity that lies between the ranges of a column: it names the nearest ends on both
sides.
-/
def gapAround (rows : List (Row α)) (key : String) (quantity : α) : Fault α :=
  let ranges := rows.filterMap (·.range? key)
  let below := Amount.greatest ((ranges.map (·.high)).filter (· < quantity))
  let above := Amount.least ((ranges.map (·.low)).filter (quantity < ·))
  .rangeGap quantity below above

/--
The position of the row that prices a quantity. Quantities below the domain of the column have none,
and neither has the undefined one.
-/
def index? (table : RateTable α) (kind : ColumnKind) (key : String) (domain : Range α)
    (quantity : α) : Option Nat :=
  if Amount.isNaN quantity || quantity < domain.low then
    none
  else
    match kind with
    | .threshold => thresholdIndex? table.rows key quantity
    | .metricRange => rangeIndex? table.rows key quantity
    | _ => none

def missFault (table : RateTable α) (kind : ColumnKind) (key : String) (domain : Range α)
    (quantity : α) : Fault α :=
  if kind == .metricRange && domain.contains quantity then
    gapAround table.rows key quantity
  else
    .rangeExceeded quantity domain.low domain.high

/--
The domain of a column for lookups. A column without cells has the domain of zero alone.
-/
def lookupDomain (table : RateTable α) (key : String) : Range α :=
  (table.domainOf? key).getD { low := Amount.zero, high := Amount.zero }

/--
Find the row that prices a quantity of the column `key`. Only on curves the answer can be that there
is none.
-/
def resolve (table : RateTable α) (key : String) (quantity : α) (mode : Mode) :
    Except (Fault α) (Option (Hit α)) :=
  match (table.column? key).filter (·.kind.isLookup) with
  | none => .error (.expression (.notLookup key))
  | some column =>
    let domain := table.lookupDomain key
    let hit? := do
      let index ← table.index? column.kind key domain quantity
      let row ← table.rows[index]?
      return { index := index, row := row }
    match hit?, mode with
    | some hit, _ => .ok (some hit)
    | none, .curve => .ok none
    | none, .exact => .error (table.missFault column.kind key domain quantity)

end RateTable

end Tariff
