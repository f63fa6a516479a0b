/-!
This module contains the kinds of columns in a rate table and the roles of computed ones.
-/

namespace Tariff

inductive ColumnKind where
  /-- Quantities within a low and a high bound select the row. -/
  | metricRange
  /-- Quantities up to a bound select the row. -/
  | threshold
  /-- A price per unit. It is what a discounted unit price replaces. -/
  | rate
  | fee
  | output
deriving Repr, DecidableEq

def ColumnKind.isLookup : ColumnKind → Bool
  | metricRange | threshold => true
  | _ => false

def ColumnKind.isValue : ColumnKind → Bool
  | rate | fee => true
  | _ => false

inductive Role where
  | unitPrice
  | total
deriving Repr, DecidableEq

end Tariff
