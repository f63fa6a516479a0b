import Mathlib.Data.List.Forall2
import Tariff.Proofs.Lookup
import Tariff.Proofs.RowOrder

/-!
This module contains what a script reads in the rows of a table, and what it means that it has a
price for a quantity.
-/

namespace Tariff

theorem forall₂_of_map_eq {β γ : Type} {f : β → Option γ} {xs : List β} {ys : List γ}
    (h : xs.map f = ys.map some) : List.Forall₂ (fun x y => f x = some y) xs ys := by
  have heq : List.Forall₂ (· = ·) (xs.map f) (ys.map some) := List.forall₂_eq_eq_eq ▸ h
  rwa [List.forall₂_map_left_iff, List.forall₂_map_right_iff] at heq

theorem exists_getElem?_of_forall₂ {β γ : Type} {R : β → γ → Prop} {xs : List β} {ys : List γ}
    (h : List.Forall₂ R xs ys) {index : Nat} {x : β} (hx : xs[index]? = some x) :
    ∃ y, ys[index]? = some y ∧ R x y := by
  induction h generalizing index with
  | nil => cases hx
  | cons hhead _ ih =>
    cases index with
    | zero =>
      cases hx
      exact ⟨_, rfl, hhead⟩
    | succ index => exact ih hx

namespace Script

variable {α : Type}

/--
The number that a script reads in a column of a row, if there is one. Where a discounted unit price
is given, it is the number of every rate column.
-/
def reading? (table : RateTable α) (discounted : Option α) (key : String) (row : Row α) :
    Option α :=
  match discounted, table.kind? key with
  | some rate, some .rate => some rate
  | _, _ => row.number? key

theorem field_eq_ok {table : RateTable α} {discounted : Option α} {key : String} {row : Row α}
    {x : α} (h : reading? table discounted key row = some x) (index : Nat) :
    field table discounted index row key = .ok x := by
  unfold field
  split
  next hkind =>
    simp only [reading?, hkind] at h
    exact congrArg Except.ok (Option.some.inj h)
  next hother =>
    have hnumber : row.number? key = some x := by
      unfold reading? at h
      split at h
      next hkind => exact (hother _ rfl hkind).elim
      next => exact h
    simp only [hnumber]

theorem reading?_of_kind? {table : RateTable α} {key : String} {kind : ColumnKind}
    (hkind : table.kind? key = some kind) (hlookup : kind.isLookup = true)
    (discounted : Option α) (row : Row α) :
    reading? table discounted key row = row.number? key := by
  unfold reading?
  split
  next hrate =>
    rw [hkind] at hrate
    cases hrate
    cases hlookup
  next => rfl

variable [Amount α]

structure Prices (script : Script) (table : RateTable α) (mode : Mode) (budget : Nat)
    (discounted : Option α) (quantity : α) (hit : Hit α) (price : α) : Prop where
  found : table.resolve script.lookupKey quantity mode = .ok (some hit)
  value : script.evaluate table quantity mode budget discounted = .ok price

theorem Prices.unique {script : Script} {table : RateTable α} {mode : Mode} {budget : Nat}
    {discounted : Option α} {quantity price price' : α} {hit hit' : Hit α}
    (h : script.Prices table mode budget discounted quantity hit price)
    (h' : script.Prices table mode budget discounted quantity hit' price') : price = price' :=
  Except.ok.inj (h.value.symm.trans h'.value)

theorem exists_prices [LawfulBEq α] {script : Script} {table : RateTable α} {mode : Mode}
    {budget : Nat} {discounted : Option α} {quantity price : α}
    (hfound : (table.resolve script.lookupKey quantity mode).toOption.any Option.isSome = true)
    (hvalue : (script.evaluate table quantity mode budget discounted).toOption.any (· == price) =
      true) :
    ∃ hit, script.Prices table mode budget discounted quantity hit price := by
  obtain ⟨hit?, hresolve, hsome⟩ := exists_ok_of_any hfound
  obtain ⟨hit, rfl⟩ := Option.isSome_iff_exists.1 hsome
  obtain ⟨value, heq, hprice⟩ := exists_ok_of_any hvalue
  rw [eq_of_beq hprice] at heq
  exact ⟨hit, hresolve, heq⟩

end Script

end Tariff
