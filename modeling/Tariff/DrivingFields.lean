import Tariff.KeyMap
import Tariff.Table.Basic

/-!
This module contains the quantities that drive each output column of a rate table.
-/

namespace Tariff

abbrev DrivingFields := KeyMap (List String)

namespace RateTable

variable {α : Type}

/--
The keys of all columns that do not select rows, including columns that are parts of others.
-/
def rowKeys (table : RateTable α) : List String :=
  Column.keysOf (table.columns.filter (!·.kind.isLookup))

/--
Whether a variable of a formula is a quantity: a metric, or a name that the table does not know.
-/
def isQuantity (table : RateTable α) (name : String) : Bool :=
  table.isLookup name || (!table.rowKeys.contains name && (table.column? name).isNone)

/--
The quantities that drive a formula: its lookup key first, then the variables that are quantities in
the order of their first appearance.
-/
def formulaFields (table : RateTable α) (formula : Formula α) : List String :=
  let key := formula.key.toList
  key ++ formula.identifiers.filter fun name => table.isQuantity name && !key.contains name

/--
The quantities that drive an output column. A formula that cannot be parsed is driven by none.
-/
def columnFields [Amount α] (table : RateTable α) (column : Column) : List String :=
  match column.script, column.formula with
  | some script, _ => [script.lookupKey]
  | none, none => []
  | none, some text =>
    match (Formula.parse text : Except (Formula.ParseError α) (Formula α)) with
    | .ok formula => table.formulaFields formula
    | .error _ => []

def drivingFields [Amount α] (table : RateTable α) : DrivingFields :=
  .ofList (table.outputColumns.map fun column => (column.key, table.columnFields column))

end RateTable

end Tariff
