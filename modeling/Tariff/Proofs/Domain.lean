import Tariff.Proofs.Amount
import Tariff.Proofs.Lookup

/-!
This module contains which quantities lie below the domain of a column: those below all its bounds.
So a quantity that a range contains is never below the domain.
-/

namespace Tariff.RateTable

variable {α : Type} [Amount α]

theorem covers_eq_true_iff {key : String} {quantity : α} {row : Row α} :
    covers key quantity row = true ↔
      ∃ range, row.range? key = some range ∧ range.low ≤ quantity ∧ quantity ≤ range.high := by
  unfold covers Range.contains
  cases row.range? key with
  | none => simp
  | some range => simp

theorem exists_bound_of_thresholdIndex? {rows : List (Row α)} {key : String} {quantity : α}
    {index : Nat} (h : thresholdIndex? rows key quantity = some index) :
    ∃ row ∈ rows, ∃ bound, row.number? key = some bound ∧ quantity ≤ bound := by
  unfold thresholdIndex? at h
  obtain ⟨hlt, hbound, _⟩ := List.findIdx?_eq_some_iff_getElem.1 h
  refine ⟨rows[index], List.getElem_mem hlt, ?_⟩
  cases hnumber : rows[index].number? key with
  | none => simp [hnumber] at hbound
  | some bound => exact ⟨bound, rfl, by simpa [hnumber] using hbound⟩

theorem exists_covers_of_rangeIndex? {rows : List (Row α)} {key : String} {quantity : α}
    {index : Nat} (h : rangeIndex? rows key quantity = some index) :
    ∃ row ∈ rows, covers key quantity row = true := by
  unfold rangeIndex? at h
  obtain ⟨first, hfirst, _⟩ := Option.map_eq_some_iff.1 h
  obtain ⟨hlt, hcovers, _⟩ := List.findIdx?_eq_some_iff_getElem.1 hfirst
  exact ⟨rows[first], List.getElem_mem hlt, hcovers⟩

theorem lookupDomain_low_range {table : RateTable α} {key : String} {row : Row α} {range : Range α}
    (hkind : table.kind? key = some .metricRange) (hrow : row ∈ table.rows)
    (hrange : row.range? key = some range) :
    (table.lookupDomain key).low =
      Amount.least ((table.rows.filterMap (·.range? key)).map (·.low)) := by
  have hmem : range ∈ table.rows.filterMap (·.range? key) :=
    List.mem_filterMap.2 ⟨row, hrow, hrange⟩
  unfold lookupDomain domainOf?
  rw [hkind]
  dsimp only
  split
  next hnil => simp [hnil] at hmem
  next => rfl

theorem lookupDomain_low_threshold {table : RateTable α} {key : String} {row : Row α} {bound : α}
    (hkind : table.kind? key = some .threshold) (hrow : row ∈ table.rows)
    (hbound : row.number? key = some bound) :
    (table.lookupDomain key).low =
      Amount.least (Amount.zero :: table.rows.filterMap (·.number? key)) := by
  have hmem : bound ∈ table.rows.filterMap (·.number? key) :=
    List.mem_filterMap.2 ⟨row, hrow, hbound⟩
  unfold lookupDomain domainOf?
  rw [hkind]
  dsimp only
  split
  next hnil => simp [hnil] at hmem
  next => rfl

variable [LawfulAmount α]

theorem not_lt_low_of_covers {table : RateTable α} {key : String} {quantity : α} {row : Row α}
    (hkind : table.kind? key = some .metricRange) (hrow : row ∈ table.rows)
    (hcovers : covers key quantity row = true) : ¬quantity < (table.lookupDomain key).low := by
  obtain ⟨range, hrange, hlow, _⟩ := covers_eq_true_iff.1 hcovers
  have hmem : range ∈ table.rows.filterMap (·.range? key) :=
    List.mem_filterMap.2 ⟨row, hrow, hrange⟩
  have hdefined := (LawfulAmount.defined_of_le hlow).1
  rw [lookupDomain_low_range hkind hrow hrange]
  rw [Amount.lt_least_iff ⟨range.low, List.mem_map_of_mem hmem, hdefined⟩]
  intro hall
  exact Amount.not_le_of_lt (hall _ (List.mem_map_of_mem hmem) hdefined) hlow

theorem lt_low_threshold_iff {table : RateTable α} {key : String} {row : Row α} {bound : α}
    (hkind : table.kind? key = some .threshold) (hrow : row ∈ table.rows)
    (hbound : row.number? key = some bound) {quantity : α} :
    quantity < (table.lookupDomain key).low ↔
      quantity < Amount.zero ∧
      ∀ row ∈ table.rows, ∀ bound, row.number? key = some bound → Amount.isNaN bound = false →
        quantity < bound := by
  have hzero : Amount.isNaN (Amount.zero : α) = false := LawfulAmount.zero_defined
  rw [lookupDomain_low_threshold hkind hrow hbound]
  rw [Amount.lt_least_iff ⟨Amount.zero, List.mem_cons_self, hzero⟩]
  simp only [List.forall_mem_cons, hzero, forall_const, List.mem_filterMap]
  constructor
  · rintro ⟨hquantity, hall⟩
    refine ⟨hquantity, ?_⟩
    intro row hrow bound hbound
    exact hall bound ⟨row, hrow, hbound⟩
  · rintro ⟨hquantity, hall⟩
    refine ⟨hquantity, ?_⟩
    rintro bound ⟨row, hrow, hbound⟩
    exact hall row hrow bound hbound

end Tariff.RateTable
