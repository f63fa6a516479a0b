import Mathlib.Data.List.Chain
import Tariff.Proofs.Amount
import Tariff.Proofs.Validate
import Tariff.Table.Load

/-!
This module contains the order of the rows of a table. The checks compare each row with the one
before. On defined bounds that puts every row above all rows before it.
-/

namespace Tariff

section List

variable {β γ : Type}

/--
Neighbours decide about all pairs if the elements compare transitively.
-/
theorem isChain_iff_pairwise_of_mem {R S : β → β → Prop} {xs : List β}
    (hRS : ∀ a ∈ xs, ∀ b ∈ xs, (R a b ↔ S a b))
    (htrans : ∀ a ∈ xs, ∀ b ∈ xs, ∀ c ∈ xs, S a b → S b c → S a c) :
    xs.IsChain R ↔ xs.Pairwise S := by
  induction xs with
  | nil => simp
  | cons a xs ih =>
    have ih := ih (fun b hb c hc => hRS b (.tail a hb) c (.tail a hc))
      fun b hb c hc d hd => htrans b (.tail a hb) c (.tail a hc) d (.tail a hd)
    rw [List.isChain_cons, List.pairwise_cons, ih]
    apply and_congr_left
    intro hpairs
    cases xs with
    | nil => simp
    | cons b xs =>
      have hab := hRS a (.head _) b (.tail a (.head _))
      constructor
      · intro hhead c hc
        rcases List.mem_cons.1 hc with rfl | hmem
        · exact hab.1 (hhead c rfl)
        · exact htrans a (.head _) b (.tail a (.head _)) c (.tail a hc) (hab.1 (hhead b rfl))
            (List.rel_of_pairwise_cons hpairs hmem)
      · intro hall c hc
        cases hc
        exact hab.2 (hall b (.head _))

theorem forall_mem_of_map_eq {f : β → Option γ} {xs : List β} {ys : List γ}
    (h : xs.map f = ys.map some) {p : γ → Prop} :
    (∀ x ∈ xs, ∀ y, f x = some y → p y) ↔ ∀ y ∈ ys, p y := by
  have hmem : ∀ y, (∃ x ∈ xs, f x = some y) ↔ y ∈ ys := by
    intro y
    rw [← List.mem_map, h]
    simp
  simp only [← hmem]
  grind

theorem exists_map_eq_cons_iff {f : β → Option γ} {x : β} {xs : List β} {p : List γ → Prop} :
    (∃ ys, (x :: xs).map f = ys.map some ∧ p ys) ↔
      ∃ y, f x = some y ∧ ∃ ys, xs.map f = ys.map some ∧ p (y :: ys) := by
  constructor
  · rintro ⟨ys, hys, hp⟩
    obtain ⟨y, ys, rfl, hy, hys⟩ := List.map_eq_cons_iff.1 hys.symm
    exact ⟨y, hy.symm, ys, hys.symm, hp⟩
  · rintro ⟨y, hy, ys, hys, hp⟩
    exact ⟨y :: ys, by simp [hy, hys], hp⟩

end List

namespace RateTable

variable {α : Type} [Amount α]

/--
Every row has a range in a column. No range ends before it begins, and none begins before an earlier
one ends.
-/
def RangesAscend (table : RateTable α) (key : String) : Prop :=
  ∃ ranges : List (Range α), table.rows.map (·.range? key) = ranges.map some ∧
    (∀ range ∈ ranges, range.low ≤ range.high) ∧ ranges.Pairwise (·.high ≤ ·.low)

/--
Every row has a threshold in a column, which is above those of all rows before.
-/
def ThresholdsAscend (table : RateTable α) (key : String) : Prop :=
  ∃ bounds : List α, table.rows.map (·.number? key) = bounds.map some ∧ bounds.Pairwise (· < ·)

def RangesDefined (table : RateTable α) (key : String) : Prop :=
  ∀ row ∈ table.rows, ∀ range, row.range? key = some range →
    Amount.isNaN range.low = false ∧ Amount.isNaN range.high = false

instance (table : RateTable α) (key : String) : Decidable (table.RangesDefined key) :=
  decidable_of_iff
    (table.rows.all fun row => (row.range? key).all fun range =>
      !Amount.isNaN range.low && !Amount.isNaN range.high)
    (by simp [RangesDefined, Option.all_eq_true])

def ThresholdsDefined (table : RateTable α) (key : String) : Prop :=
  ∀ row ∈ table.rows, ∀ bound, row.number? key = some bound → Amount.isNaN bound = false

instance (table : RateTable α) (key : String) : Decidable (table.ThresholdsDefined key) :=
  decidable_of_iff (table.rows.all fun row => (row.number? key).all (!Amount.isNaN ·))
    (by simp [ThresholdsDefined, Option.all_eq_true])

def BoundsDefined (table : RateTable α) : Prop :=
  ∀ column ∈ table.columns,
    (column.kind = .metricRange → table.RangesDefined column.key) ∧
    (column.kind = .threshold → table.ThresholdsDefined column.key)

instance (table : RateTable α) : Decidable table.BoundsDefined :=
  inferInstanceAs (Decidable (∀ column ∈ table.columns, _))

def Ordered (table : RateTable α) : Prop :=
  ∀ column ∈ table.columns,
    (column.kind = .metricRange → table.RangesAscend column.key) ∧
    (column.kind = .threshold → table.ThresholdsAscend column.key)

variable {key : String} {index : Nat} {row : Row α} {rows : List (Row α)}

theorem checkRanges_cons_eq_ok_iff {previous : Option (Range α)} :
    checkRanges key index previous (row :: rows) = .ok () ↔
      ∃ range, row.range? key = some range ∧ ¬range.high < range.low ∧
        (∀ before ∈ previous, ¬range.low < before.high) ∧
        checkRanges key (index + 1) (some range) rows = .ok () := by
  rw [checkRanges]
  cases row.range? key with
  | none => simp
  | some range =>
    dsimp only
    split
    next hinverted => simp [hinverted]
    next hinverted =>
      cases previous with
      | none => simp [hinverted]
      | some before =>
        rw [Option.filter_some]
        by_cases hoverlap : range.low < before.high <;> simp [hinverted, hoverlap]

theorem checkRanges_eq_ok_iff {previous : Option (Range α)} :
    checkRanges key index previous rows = .ok () ↔
      ∃ ranges : List (Range α), rows.map (·.range? key) = ranges.map some ∧
        (∀ range ∈ ranges, ¬range.high < range.low) ∧
        (∀ before ∈ previous, ∀ first ∈ ranges.head?, ¬first.low < before.high) ∧
        ranges.IsChain fun before range => ¬range.low < before.high := by
  induction rows generalizing index previous with
  | nil => simp [checkRanges]
  | cons row rows ih =>
    rw [checkRanges_cons_eq_ok_iff, exists_map_eq_cons_iff]
    apply exists_congr
    intro range
    apply and_congr_right
    intro _
    rw [ih]
    constructor
    · rintro ⟨hupright, hapart, ranges, hranges, huprights, hhead, hchain⟩
      refine ⟨ranges, hranges, List.forall_mem_cons.2 ⟨hupright, huprights⟩, ?_,
        List.isChain_cons.2 ⟨hhead range rfl, hchain⟩⟩
      rintro before hbefore _ ⟨⟩
      exact hapart before hbefore
    · rintro ⟨ranges, hranges, huprights, hapart, hchain⟩
      obtain ⟨hupright, huprights⟩ := List.forall_mem_cons.1 huprights
      obtain ⟨hhead, hchain⟩ := List.isChain_cons.1 hchain
      refine ⟨hupright, fun before hbefore => hapart before hbefore range rfl, ranges, hranges,
        huprights, ?_, hchain⟩
      rintro _ ⟨⟩
      exact hhead

theorem checkThresholds_cons_eq_ok_iff {previous : Option α} :
    checkThresholds key index previous (row :: rows) = .ok () ↔
      ∃ bound, row.number? key = some bound ∧ (∀ before ∈ previous, ¬bound ≤ before) ∧
        checkThresholds key (index + 1) (some bound) rows = .ok () := by
  rw [checkThresholds]
  cases row.number? key with
  | none => simp
  | some bound =>
    dsimp only
    cases previous with
    | none => simp
    | some before =>
      rw [Option.filter_some]
      by_cases hunordered : bound ≤ before <;> simp [hunordered]

theorem checkThresholds_eq_ok_iff {previous : Option α} :
    checkThresholds key index previous rows = .ok () ↔
      ∃ bounds : List α, rows.map (·.number? key) = bounds.map some ∧
        (∀ before ∈ previous, ∀ first ∈ bounds.head?, ¬first ≤ before) ∧
        bounds.IsChain fun before bound => ¬bound ≤ before := by
  induction rows generalizing index previous with
  | nil => simp [checkThresholds]
  | cons row rows ih =>
    rw [checkThresholds_cons_eq_ok_iff, exists_map_eq_cons_iff]
    apply exists_congr
    intro bound
    apply and_congr_right
    intro _
    rw [ih]
    constructor
    · rintro ⟨habove, bounds, hbounds, hhead, hchain⟩
      refine ⟨bounds, hbounds, ?_, List.isChain_cons.2 ⟨hhead bound rfl, hchain⟩⟩
      rintro before hbefore _ ⟨⟩
      exact habove before hbefore
    · rintro ⟨bounds, hbounds, habove, hchain⟩
      obtain ⟨hhead, hchain⟩ := List.isChain_cons.1 hchain
      refine ⟨fun before hbefore => habove before hbefore bound rfl, bounds, hbounds, ?_, hchain⟩
      rintro _ ⟨⟩
      exact hhead

variable {table : RateTable α}

theorem thresholdsAscend_of_length_le (h : checkThresholds key 0 none table.rows = .ok ())
    (hrows : table.rows.length ≤ 1) : table.ThresholdsAscend key := by
  obtain ⟨bounds, hbounds, _⟩ := checkThresholds_eq_ok_iff.1 h
  refine ⟨bounds, hbounds, ?_⟩
  have hlength : bounds.length ≤ 1 := by
    have := congrArg List.length hbounds
    simp only [List.length_map] at this
    omega
  match bounds, hlength with
  | [], _ => exact .nil
  | [bound], _ => exact List.pairwise_singleton _ bound

theorem checkLookupColumns_iff :
    (∀ column ∈ table.lookupColumns, table.checkLookupColumn column = .ok ()) ↔
      ∀ column ∈ table.columns,
        (column.kind = .metricRange → checkRanges column.key 0 none table.rows = .ok ()) ∧
        (column.kind = .threshold → checkThresholds column.key 0 none table.rows = .ok ()) := by
  simp only [lookupColumns, List.mem_filter, and_imp]
  apply forall₂_congr
  intro column _
  unfold checkLookupColumn
  cases column.kind <;> simp [ColumnKind.isLookup]

theorem checked_eq_ok {columns : List Column} {rows : Except (LoadFault α) (List (Row α))}
    (h : (do
      let rows ← rows
      let table : RateTable α := { columns, rows }
      table.validate.mapError LoadFault.config
      return table) = .ok table) :
    table.columns = columns ∧ table.validate = .ok () := by
  cases rows with
  | error fault => cases h
  | ok rows =>
    change (validate { columns, rows } |>.mapError LoadFault.config) >>= _ = _ at h
    cases hvalidate : validate { columns, rows } with
    | error fault =>
      rw [hvalidate] at h
      cases h
    | ok =>
      rw [hvalidate] at h
      cases h
      exact ⟨rfl, hvalidate⟩

theorem load_eq_ok {readNumber? : String → Option α} {columns : List Column}
    {bytes : List UInt8} (h : load readNumber? columns bytes = .ok table) :
    table.columns = columns ∧ table.validate = .ok () := by
  unfold load at h
  split at h
  next => exact checked_eq_ok h
  next =>
    split at h
    next => exact checked_eq_ok h
    next => exact checked_eq_ok h

variable [LawfulAmount α]

theorem checkRanges_iff_rangesAscend (h : table.RangesDefined key) :
    checkRanges key 0 none table.rows = .ok () ↔ table.RangesAscend key := by
  rw [checkRanges_eq_ok_iff, RangesAscend]
  apply exists_congr
  intro ranges
  apply and_congr_right
  intro hranges
  have hdefined := (forall_mem_of_map_eq hranges).1 h
  have hupright : (∀ range ∈ ranges, ¬range.high < range.low) ↔
      ∀ range ∈ ranges, range.low ≤ range.high := by
    apply forall₂_congr
    intro range hmem
    exact Amount.not_lt_iff (hdefined range hmem).1 (hdefined range hmem).2
  rw [hupright]
  apply and_congr_right
  intro hupright
  simp only [Option.not_mem_none, false_implies, implies_true, true_and]
  apply isChain_iff_pairwise_of_mem
  · intro before hbefore range hrange
    exact Amount.not_lt_iff (hdefined before hbefore).2 (hdefined range hrange).1
  · intro a _ b hb c _ hab hbc
    exact LawfulAmount.le_trans hab (LawfulAmount.le_trans (hupright b hb) hbc)

theorem checkThresholds_iff_thresholdsAscend (h : table.ThresholdsDefined key) :
    checkThresholds key 0 none table.rows = .ok () ↔ table.ThresholdsAscend key := by
  rw [checkThresholds_eq_ok_iff, ThresholdsAscend]
  apply exists_congr
  intro bounds
  apply and_congr_right
  intro hbounds
  have hdefined := (forall_mem_of_map_eq hbounds).1 h
  simp only [Option.not_mem_none, false_implies, implies_true, true_and]
  apply isChain_iff_pairwise_of_mem
  · intro before hbefore bound hbound
    exact Amount.not_le_iff (hdefined before hbefore) (hdefined bound hbound)
  · intro a _ b _ c _ hab hbc
    exact Amount.lt_of_lt_of_le hab (Amount.le_of_lt hbc)

theorem RangesAscend.defined (h : table.RangesAscend key) : table.RangesDefined key := by
  obtain ⟨ranges, hranges, hupright, _⟩ := h
  refine (forall_mem_of_map_eq hranges).2 ?_
  intro range hmem
  exact LawfulAmount.defined_of_le (hupright range hmem)

theorem ThresholdsAscend.defined (h : table.ThresholdsAscend key) (hrows : 2 ≤ table.rows.length) :
    table.ThresholdsDefined key := by
  obtain ⟨bounds, hbounds, hpairs⟩ := h
  refine (forall_mem_of_map_eq hbounds).2 ?_
  have hlength : 2 ≤ bounds.length := by
    have := congrArg List.length hbounds
    simp only [List.length_map] at this
    omega
  -- Every threshold is compared with the first one, and the first one with the second.
  obtain _ | ⟨first, _ | ⟨second, rest⟩⟩ := bounds
  · simp at hlength
  · simp at hlength
  have hfirst : ∀ bound ∈ second :: rest, first ≤ bound := by
    intro bound hmem
    exact Amount.le_of_lt (List.rel_of_pairwise_cons hpairs hmem)
  rw [List.forall_mem_cons]
  constructor
  · exact (LawfulAmount.defined_of_le (hfirst second (.head _))).1
  · intro bound hmem
    exact (LawfulAmount.defined_of_le (hfirst bound hmem)).2

theorem ordered_iff_of_validate (h : table.validate = .ok ()) :
    table.Ordered ↔ ∀ column ∈ table.columns,
      (column.kind = .metricRange → table.RangesDefined column.key) ∧
      (column.kind = .threshold → 2 ≤ table.rows.length → table.ThresholdsDefined column.key) := by
  apply forall₂_congr
  intro column hmem
  have hchecks := checkLookupColumns_iff.1 (table.validate_eq_ok_iff.1 h).2.1
  obtain ⟨hranges, hthresholds⟩ := hchecks column hmem
  apply and_congr
  · apply forall_congr'
    intro hkind
    exact ⟨RangesAscend.defined, fun hdefined =>
      (checkRanges_iff_rangesAscend hdefined).1 (hranges hkind)⟩
  · apply forall_congr'
    intro hkind
    refine ⟨ThresholdsAscend.defined, fun hdefined => ?_⟩
    rcases Nat.lt_or_ge table.rows.length 2 with hrows | hrows
    · exact thresholdsAscend_of_length_le (hthresholds hkind) (Nat.le_of_lt_succ hrows)
    · exact (checkThresholds_iff_thresholdsAscend (hdefined hrows)).1 (hthresholds hkind)

theorem load_ordered_iff {readNumber? : String → Option α} {columns : List Column}
    {bytes : List UInt8} (h : load readNumber? columns bytes = .ok table) :
    table.columns = columns ∧
    (table.Ordered ↔ ∀ column ∈ columns,
      (column.kind = .metricRange → table.RangesDefined column.key) ∧
      (column.kind = .threshold → 2 ≤ table.rows.length →
        table.ThresholdsDefined column.key)) := by
  obtain ⟨rfl, hvalidate⟩ := load_eq_ok h
  exact ⟨rfl, ordered_iff_of_validate hvalidate⟩

def usage : Column :=
  { name := "Usage", key := "usage", kind := .metricRange }

def quota : Column :=
  { name := "Up to", key := "upto", kind := .threshold }

theorem load_quotas_ordered :
    ∃ table : RateTable Float,
      load Decimal.readNumber? [usage, quota]
        "usage_low,usage_high,upto\n0,10,5\n10,inf,7.5\n".toUTF8.toList = .ok table ∧
      table.rows.length = 2 ∧ table.Ordered := by
  obtain ⟨table, hload, h⟩ := exists_ok_of_any
    (p := fun table => table.rows.length = 2 ∧ table.RangesDefined usage.key ∧
      table.ThresholdsDefined quota.key)
    (x := load Decimal.readNumber? [usage, quota]
      "usage_low,usage_high,upto\n0,10,5\n10,inf,7.5\n".toUTF8.toList) (by decide +kernel)
  obtain ⟨hrows, hranges, hthresholds⟩ := of_decide_eq_true h
  refine ⟨table, hload, hrows, (load_ordered_iff hload).2.2 ?_⟩
  intro column hcolumn
  simp only [List.mem_cons, List.not_mem_nil, or_false] at hcolumn
  rcases hcolumn with rfl | rfl
  · exact ⟨fun _ => hranges, fun hkind => nomatch hkind⟩
  · exact ⟨(fun hkind => nomatch hkind), fun _ _ => hthresholds⟩

/--
An undefined threshold is neither above nor below its neighbours, so it hides that they descend.
-/
theorem load_undefinedThreshold_not_ordered :
    ∃ table : RateTable Float,
      load Decimal.readNumber? [quota] "upto\n10\nnan\n5\n".toUTF8.toList = .ok table ∧
      ¬table.Ordered := by
  obtain ⟨table, hload, h⟩ := exists_ok_of_any
    (p := fun table => table.rows.length = 3 ∧ ¬table.ThresholdsDefined quota.key)
    (x := load Decimal.readNumber? [quota] "upto\n10\nnan\n5\n".toUTF8.toList) (by decide +kernel)
  obtain ⟨hrows, hundefined⟩ := of_decide_eq_true h
  have hmem : quota ∈ table.columns := by
    rw [(load_eq_ok hload).1]
    exact .head _
  refine ⟨table, hload, fun hordered => hundefined ?_⟩
  exact ((hordered quota hmem).2 rfl).defined (by omega)

end RateTable

end Tariff
