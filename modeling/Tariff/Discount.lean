import Tariff.Amount

/-!
This module contains the reconciliation of list prices with discounts. A discount is given as a
discounted total or as a discounted unit price; the total counts if both are given.
-/

namespace Tariff

structure Discount (α : Type) where
  total : Option α := none
  unitPrice : Option α := none
deriving Repr, BEq

inductive Precision where
  | core
  | addon
deriving Repr, DecidableEq

def Precision.places : Precision → Nat
  | core => 3
  | addon => 2

/--
List prices and discounted prices, which are always given together.
-/
structure PriceFigures (α : Type) where
  listUnitPrice : α
  listTotal : α
  discountedUnitPrice : α
  discountedTotal : α
  discountPercent : α
deriving Repr, BEq

namespace PriceFigures

variable {α : Type} [Amount α]

def listOnly (unitPrice total : α) : PriceFigures α where
  listUnitPrice := unitPrice
  listTotal := total
  discountedUnitPrice := unitPrice
  discountedTotal := total
  discountPercent := Amount.zero

/--
By how many percent of the list total the discounted total is lower, from 0 to 100. A list total of
zero has no discount, and neither has one of which the percentage is undefined.
-/
def percent (listTotal discountedTotal : α) : α :=
  if listTotal == Amount.zero || listTotal == discountedTotal then
    Amount.zero
  else
    let percent := (listTotal - discountedTotal) / listTotal * Amount.ofNat 100
    if Amount.isNaN percent then Amount.zero
    else if percent < Amount.zero then Amount.zero
    else if Amount.ofNat 100 < percent then Amount.ofNat 100
    else percent

def discounted (listUnitPrice listTotal : α) (precision : Precision) (unitPrice total : α) :
    PriceFigures α where
  listUnitPrice := listUnitPrice
  listTotal := listTotal
  discountedUnitPrice := unitPrice
  discountedTotal := total
  discountPercent := Amount.roundTo (percent listTotal total) precision.places

/--
Reconcile list prices with a discount. A discounted total scales the unit price; for a discounted
unit price `reprice` computes the total.
-/
def reconcile {ε : Type} (listUnitPrice listTotal : α) (discount : Option (Discount α))
    (precision : Precision) (reprice : α → Except ε α) : Except ε (PriceFigures α) :=
  match discount with
  | some { total := some total, .. } =>
    let unitPrice :=
      if listTotal == Amount.zero then listUnitPrice else listUnitPrice * total / listTotal
    .ok (discounted listUnitPrice listTotal precision unitPrice total)
  | some { total := none, unitPrice := some unitPrice } => do
    let total ← reprice unitPrice
    return discounted listUnitPrice listTotal precision unitPrice total
  | _ => .ok (listOnly listUnitPrice listTotal)

end PriceFigures

end Tariff
