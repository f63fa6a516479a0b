import Tariff.Csv
import Tariff.Decimal.Numeral
import Tariff.Fault
import Tariff.Table.Validate
import Tariff.Text

/-!
This module contains rate tables whose rows come from comma-separated records. The first record
holds the keys of the columns. A range column `k` has two of them, `k_low` and `k_high`.
-/

namespace Tariff

namespace RateTable.Load

def fieldOf? (headers fields : List String) (header : String) : Option String :=
  ((headers.zip fields).find? fun pair => Text.trim pair.1 == header).map (·.2)

variable {α : Type}

/--
A number that has to be there. `line` counts the records after the first one.
-/
def bound (readNumber? : String → Option α) (line : Nat) (header text : String) :
    Except (ConfigFault α) α :=
  match readNumber? (Text.trim text) with
  | some x => .ok x
  | none => .error (.notNumber line text header)

/--
The cell of a column in a record. Columns that are computed have none, and neither have empty
fields.
-/
def cell? (readNumber? : String → Option α) (headers fields : List String) (line : Nat)
    (column : Column) : Except (ConfigFault α) (Option (Cell α)) :=
  match column.kind with
  | .output => .ok none
  | .metricRange =>
    let lowHeader := column.key ++ "_low"
    let highHeader := column.key ++ "_high"
    match fieldOf? headers fields lowHeader, fieldOf? headers fields highHeader with
    | some lowText, some highText => do
      let low ← bound readNumber? line lowHeader lowText
      let high ← bound readNumber? line highHeader highText
      return some (.range { low, high })
    | _, _ => .error (.missingBounds column.key)
  | _ =>
    match (fieldOf? headers fields column.key).map Text.trim with
    | none => .ok none
    | some text =>
      if text.isEmpty then .ok none
      else
        match readNumber? text with
        | some x => .ok (some (.number x))
        | none => .ok (some (.text text))

def row (readNumber? : String → Option α) (headers fields : List String) (line : Nat)
    (columns : List Column) : Except (ConfigFault α) (Row α) :=
  columns.foldlM (fun row column => do
    match ← cell? readNumber? headers fields line column with
    | some cell => return row.insert column.key cell
    | none => return row) ∅

/--
The rows of the records after the first one, up to the first fault.
-/
def rows (readNumber? : String → Option α) (headers : List String) (columns : List Column) :
    (line : Nat) → List (List Csv.Field) → Except (LoadFault α) (List (Row α))
  | _, [] => .ok []
  | line, record :: records =>
    if record.length ≠ headers.length then
      .error (.unequalLengths headers.length record.length)
    else
      match Csv.texts? record with
      | none => .error .notText
      | some fields => do
        let first ← (row readNumber? headers fields line columns).mapError .config
        let others ← rows readNumber? headers columns (line + 1) records
        return first :: others

end RateTable.Load

/--
Load a table with given columns from comma-separated records and check it.
-/
def RateTable.load {α : Type} [Amount α] (readNumber? : String → Option α) (columns : List Column)
    (bytes : List UInt8) : Except (LoadFault α) (RateTable α) := do
  let rows ←
    match Csv.read bytes with
    | [] => pure []
    | header :: records =>
      match Csv.texts? header with
      | none => throw .notText
      | some headers => RateTable.Load.rows readNumber? headers columns 1 records
  let table : RateTable α := { columns, rows }
  table.validate.mapError .config
  return table

end Tariff
