import Tariff.Table.Validate

/-!
This module contains what it means that a rate table passes its checks.
-/

namespace Tariff

theorem bind_eq_ok_iff {ε : Type} {x : Except ε Unit} {f : Unit → Except ε Unit} :
    (x >>= f) = .ok () ↔ x = .ok () ∧ f () = .ok () := by
  cases x with
  | error fault =>
    constructor
    · intro h
      cases h
    · intro h
      cases h.1
  | ok =>
    constructor
    · intro h
      exact ⟨rfl, h⟩
    · intro h
      exact h.2

theorem forM_eq_ok_iff {ε β : Type} {f : β → Except ε Unit} {xs : List β} :
    xs.forM f = .ok () ↔ ∀ x ∈ xs, f x = .ok () := by
  induction xs with
  | nil => simp [pure, Except.pure]
  | cons x xs ih =>
    rw [List.forall_mem_cons, ← ih]
    exact bind_eq_ok_iff

theorem eq_ok_of_isOk {ε : Type} {x : Except ε Unit} (h : x.isOk = true) : x = .ok () := by
  cases x with
  | error fault => cases h
  | ok => rfl

theorem exists_ok_of_any {ε β : Type} {x : Except ε β} {p : β → Bool}
    (h : x.toOption.any p = true) : ∃ b, x = .ok b ∧ p b = true := by
  cases x with
  | error fault => cases h
  | ok b => exact ⟨b, rfl, h⟩

namespace RateTable

variable {α : Type}

theorem checkKeys_eq_ok_iff {seen : List String} {columns : List Column} :
    (checkKeys seen columns : Except (ConfigFault α) Unit) = .ok () ↔
      (columns.map (·.key)).Nodup ∧ ∀ column ∈ columns, column.key ∉ seen := by
  induction columns generalizing seen with
  | nil => simp [checkKeys]
  | cons column columns ih =>
    unfold checkKeys
    split
    next hseen => simp [hseen]
    next hseen =>
      rw [ih]
      simp only [List.map_cons, List.nodup_cons, List.mem_map, List.mem_cons, forall_eq_or_imp]
      constructor
      · rintro ⟨hnodup, hnew⟩
        refine ⟨⟨?_, hnodup⟩, hseen, ?_⟩
        · rintro ⟨other, hother, hkey⟩
          exact hnew other hother (.inl hkey)
        · intro other hother hmem
          exact hnew other hother (.inr hmem)
      · rintro ⟨⟨hhead, hnodup⟩, _, hnew⟩
        refine ⟨hnodup, ?_⟩
        rintro other hother (hkey | hmem)
        · exact hhead ⟨other, hother, hkey⟩
        · exact hnew other hother hmem

variable [Amount α]

theorem validate_eq_ok_iff (table : RateTable α) :
    table.validate = .ok () ↔
      (table.columns.map (·.key)).Nodup ∧
      (∀ column ∈ table.lookupColumns, table.checkLookupColumn column = .ok ()) ∧
      table.checkRole .total = .ok () ∧
      table.checkRole .unitPrice = .ok () ∧
      ∀ column ∈ table.outputColumns,
        table.checkFormula column = .ok () ∧ table.checkScript column = .ok () := by
  unfold validate
  simp only [bind_eq_ok_iff, forM_eq_ok_iff, checkKeys_eq_ok_iff,
    List.not_mem_nil, not_false_eq_true, implies_true, and_true]

/--
A table to show results on: two ranges, each with its rate, and the price at the rate.
-/
def growth : RateTable Float where
  columns := [
    { name := "Range", key := "range", kind := .metricRange },
    { name := "Rate", key := "rate", kind := .rate },
    .output "Price" "price" "lookup(range)\x7brate*range\x7d"]
  rows := [
    Row.insert ∅ "range" (.range ⟨0, 100⟩) |>.insert "rate" (.number 5),
    Row.insert ∅ "range" (.range ⟨101, 200⟩) |>.insert "rate" (.number 3)]

end RateTable

end Tariff
