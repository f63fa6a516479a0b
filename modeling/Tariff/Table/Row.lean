import Tariff.Amount
import Tariff.KeyMap

/-!
This module contains the rows of a rate table.
-/

namespace Tariff

/--
The quantities from `low` to `high`, both included.
-/
structure Range (α : Type) where
  low : α
  high : α
deriving Repr, BEq

def Range.contains {α : Type} [Amount α] (range : Range α) (quantity : α) : Bool :=
  range.low ≤ quantity && quantity ≤ range.high

inductive Cell (α : Type) where
  | number (value : α)
  | range (range : Range α)
  | text (value : String)
deriving Repr, BEq

structure Row (α : Type) where
  cells : KeyMap (Cell α)
deriving BEq

namespace Row

variable {α : Type}

instance : EmptyCollection (Row α) := ⟨⟨∅⟩⟩

/--
The number in a column. Ranges and texts are no numbers.
-/
def number? (row : Row α) (key : String) : Option α :=
  match row.cells.find? key with
  | some (.number x) => some x
  | _ => none

def range? (row : Row α) (key : String) : Option (Range α) :=
  match row.cells.find? key with
  | some (.range r) => some r
  | _ => none

def numbers (row : Row α) : KeyMap α :=
  row.cells.filterMap fun
    | .number x => some x
    | _ => none

def insert (row : Row α) (key : String) (cell : Cell α) : Row α where
  cells := row.cells.insert key cell

end Row

end Tariff
