import Tariff.Formula.Basic
import Tariff.Table.Column
import Tariff.Table.Row

/-!
This module contains rate tables and what can be read off them: their columns by role, the metric
that drives the total, and the quantities they have rows for.
-/

namespace Tariff

/--
A rate table. Rows are kept in the order in which lookups go through them.
-/
structure RateTable (α : Type) where
  columns : List Column
  rows : List (Row α)
deriving BEq

namespace RateTable

variable {α : Type}

instance : Inhabited (RateTable α) := ⟨⟨[], []⟩⟩

def column? (table : RateTable α) (key : String) : Option Column :=
  table.columns.find? (·.key == key)

def kind? (table : RateTable α) (key : String) : Option ColumnKind :=
  (table.column? key).map (·.kind)

def isLookup (table : RateTable α) (key : String) : Bool :=
  (table.kind? key).any ColumnKind.isLookup

def lookupColumns (table : RateTable α) : List Column :=
  table.columns.filter (·.kind.isLookup)

def outputColumns (table : RateTable α) : List Column :=
  table.columns.filter (·.kind == .output)

def outputWith? (table : RateTable α) (role : Role) : Option Column :=
  table.outputColumns.find? (·.role == some role)

/--
The keys of the columns that a discounted unit price replaces.
-/
def rateKeys (table : RateTable α) : List String :=
  (table.columns.filter (·.kind == .rate)).map (·.key)

variable [Amount α]

/--
The column that the formula of the total looks up, if there is one.
-/
def totalKey? (table : RateTable α) : Option String := do
  let total ← table.outputWith? .total
  let text ← total.formula
  let formula : Formula α ← (Formula.parse text).toOption
  let key ← formula.key
  let column ← table.column? key
  return column.key

/--
The metric that drives the total: the one that the formula of the total looks up, or else the first
column that selects rows.
-/
def primaryKey? (table : RateTable α) : Option String :=
  table.totalKey? <|> (table.lookupColumns.head?.map (·.key))

/--
The quantities from the lowest to the highest that a column has rows for. The band of the first
threshold begins at zero, or at the threshold itself if that is negative.
-/
def domainOf? (table : RateTable α) (key : String) : Option (Range α) :=
  match table.kind? key with
  | some .metricRange =>
    match table.rows.filterMap (·.range? key) with
    | [] => none
    | ranges =>
      some {
        low := Amount.least (ranges.map (·.low))
        high := Amount.greatest (ranges.map (·.high)) }
  | some .threshold =>
    match table.rows.filterMap (·.number? key) with
    | [] => none
    | bounds =>
      some { low := Amount.least (Amount.zero :: bounds), high := Amount.greatest bounds }
  | _ => none

def hull (a b : Range α) : Range α where
  low := Amount.lesser a.low b.low
  high := Amount.greater a.high b.high

def hull? : List (Range α) → Option (Range α)
  | [] => none
  | range :: ranges => some (ranges.foldl hull range)

def domain? (table : RateTable α) : Option (Range α) :=
  hull? (table.lookupColumns.filterMap (table.domainOf? ·.key))

end RateTable

end Tariff
