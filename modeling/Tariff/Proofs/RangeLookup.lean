import Tariff.Proofs.Domain
import Tariff.Proofs.Hull

/-!
This module contains what a lookup in a column of ranges answers. The ranges of a usable table
ascend, so a quantity is in some of them, between two neighbours, or outside of all. A row is found
in the first case only, and in the other two the fault names the nearest ends.
-/

namespace Tariff

theorem filterMap_eq_of_map_eq {β γ : Type} {f : β → Option γ} {xs : List β} {ys : List γ}
    (h : xs.map f = ys.map some) : xs.filterMap f = ys := by
  calc xs.filterMap f
    _ = (xs.map f).filterMap id := by
      rw [List.filterMap_map]
      rfl
    _ = ys := by
      rw [h, List.filterMap_map]
      exact List.filterMap_some

namespace Range

variable {α : Type} [Amount α]

theorem contains_eq_true_iff {range : Range α} {quantity : α} :
    range.contains quantity = true ↔ range.low ≤ quantity ∧ quantity ≤ range.high := by
  unfold contains
  simp

/--
No range ends before it begins, and none begins before an earlier one ends.
-/
structure Ascending (ranges : List (Range α)) : Prop where
  upright : ∀ range ∈ ranges, range.low ≤ range.high
  apart : ranges.Pairwise (·.high ≤ ·.low)

variable {first last : Range α} {ranges lowers uppers : List (Range α)} {quantity : α}

namespace Ascending

theorem of_append (h : Ascending (lowers ++ uppers)) : Ascending lowers ∧ Ascending uppers := by
  obtain ⟨hlowers, huppers, _⟩ := List.pairwise_append.1 h.apart
  exact ⟨⟨fun range hmem => h.upright range (List.mem_append_left _ hmem), hlowers⟩,
    ⟨fun range hmem => h.upright range (List.mem_append_right _ hmem), huppers⟩⟩

variable [LawfulAmount α]

theorem low_le (h : Ascending (first :: ranges)) {range : Range α}
    (hmem : range ∈ first :: ranges) : first.low ≤ range.low := by
  have hfirst := h.upright first List.mem_cons_self
  rcases List.mem_cons.1 hmem with rfl | hmem
  · exact Amount.le_refl (LawfulAmount.defined_of_le hfirst).1
  · exact LawfulAmount.le_trans hfirst (List.rel_of_pairwise_cons h.apart hmem)

theorem le_high (h : Ascending (ranges ++ [last])) {range : Range α}
    (hmem : range ∈ ranges ++ [last]) : range.high ≤ last.high := by
  have hlast := h.upright last (List.mem_append_right _ List.mem_cons_self)
  rcases List.mem_append.1 hmem with hmem | hmem
  · have hapart := (List.pairwise_append.1 h.apart).2.2 range hmem last List.mem_cons_self
    exact LawfulAmount.le_trans hapart hlast
  · rw [List.mem_singleton.1 hmem]
    exact Amount.le_refl (LawfulAmount.defined_of_le hlast).2

theorem pairwise_ends (h : Ascending (first :: ranges)) :
    (first.low :: (first :: ranges).map (·.high)).Pairwise (· ≤ ·) := by
  rw [List.pairwise_cons, List.forall_mem_map, List.pairwise_map]
  constructor
  · intro range hmem
    exact LawfulAmount.le_trans (h.low_le hmem) (h.upright range hmem)
  · apply h.apart.imp_of_mem
    intro range later _ hlater hle
    exact LawfulAmount.le_trans hle (h.upright later hlater)

theorem samePlace_least_low (h : Ascending ranges) (hfirst : ranges.head? = some first) :
    Amount.SamePlace (Amount.least (ranges.map (·.low))) first.low := by
  obtain ⟨rest, rfl⟩ := List.head?_eq_some_iff.1 hfirst
  apply Amount.samePlace_least (List.mem_map_of_mem List.mem_cons_self)
  intro low hlow
  obtain ⟨range, hmem, rfl⟩ := List.mem_map.1 hlow
  exact h.low_le hmem

theorem samePlace_greatest_high (h : Ascending ranges) (hlast : ranges.getLast? = some last) :
    Amount.SamePlace (Amount.greatest (ranges.map (·.high))) last.high := by
  obtain ⟨rest, rfl⟩ := List.getLast?_eq_some_iff.1 hlast
  apply Amount.samePlace_greatest
    (List.mem_map_of_mem (List.mem_append_right _ List.mem_cons_self))
  intro high hhigh
  obtain ⟨range, hmem, rfl⟩ := List.mem_map.1 hhigh
  exact h.le_high hmem

theorem exists_split (h : Ascending ranges) (hdefined : Amount.isNaN quantity = false)
    (hmiss : ∀ range ∈ ranges, range.contains quantity = false) :
    ∃ lowers uppers, ranges = lowers ++ uppers ∧ (∀ range ∈ lowers, range.high < quantity) ∧
      ∀ range ∈ uppers, quantity < range.low := by
  induction ranges with
  | nil => exact ⟨[], [], rfl, by simp, by simp⟩
  | cons first ranges ih =>
    have ⟨hlow, hhigh⟩ :=
      LawfulAmount.defined_of_le (h.upright first List.mem_cons_self)
    by_cases hbelow : first.low ≤ quantity
    · have habove : ¬quantity ≤ first.high := by
        intro habove
        have := contains_eq_true_iff.2 ⟨hbelow, habove⟩
        rw [hmiss first List.mem_cons_self] at this
        cases this
      have ⟨hupright, hrest⟩ := List.forall_mem_cons.1 h.upright
      obtain ⟨lowers, uppers, rfl, hlowers, huppers⟩ :=
        ih ⟨hrest, h.apart.of_cons⟩ (List.forall_mem_cons.1 hmiss).2
      refine ⟨first :: lowers, uppers, rfl, List.forall_mem_cons.2 ⟨?_, hlowers⟩, huppers⟩
      exact (Amount.not_le_iff hhigh hdefined).1 habove
    · refine ⟨[], first :: ranges, rfl, by simp, ?_⟩
      intro range hmem
      exact Amount.lt_of_lt_of_le ((Amount.not_le_iff hdefined hlow).1 hbelow) (h.low_le hmem)

theorem filter_of_split (h : Ascending (lowers ++ uppers))
    (hlowers : ∀ range ∈ lowers, range.high < quantity)
    (huppers : ∀ range ∈ uppers, quantity < range.low) :
    ((lowers ++ uppers).map (·.high)).filter (· < quantity) = lowers.map (·.high) ∧
      ((lowers ++ uppers).map (·.low)).filter (quantity < ·) = uppers.map (·.low) := by
  have ⟨hlower, hupper⟩ := h.of_append
  have hhighs : (uppers.map (·.high)).filter (· < quantity) = [] := by
    rw [List.filter_eq_nil_iff]
    intro high hhigh
    obtain ⟨range, hmem, rfl⟩ := List.mem_map.1 hhigh
    have hle := LawfulAmount.le_trans (Amount.le_of_lt (huppers range hmem))
      (hupper.upright range hmem)
    simpa using fun hlt => Amount.not_le_of_lt hlt hle
  have hlows : (lowers.map (·.low)).filter (quantity < ·) = [] := by
    rw [List.filter_eq_nil_iff]
    intro low hlow
    obtain ⟨range, hmem, rfl⟩ := List.mem_map.1 hlow
    have hle := LawfulAmount.le_trans (hlower.upright range hmem)
      (Amount.le_of_lt (hlowers range hmem))
    simpa using fun hlt => Amount.not_le_of_lt hlt hle
  constructor
  · rw [List.map_append, List.filter_append, hhighs, List.append_nil, List.filter_eq_self]
    simpa using hlowers
  · rw [List.map_append, List.filter_append, hlows, List.nil_append, List.filter_eq_self]
    simpa using huppers

theorem exists_neighbours (h : Ascending ranges) (hdefined : Amount.isNaN quantity = false)
    (hmiss : ∀ range ∈ ranges, range.contains quantity = false)
    (hfirst : ranges.head? = some first) (hlast : ranges.getLast? = some last)
    (hlow : first.low ≤ quantity) (hhigh : quantity ≤ last.high) :
    ∃ i lower upper, ranges[i]? = some lower ∧ ranges[i + 1]? = some upper ∧
      Amount.SamePlace (Amount.greatest ((ranges.map (·.high)).filter (· < quantity))) lower.high ∧
      lower.high < quantity ∧ quantity < upper.low ∧
      Amount.SamePlace (Amount.least ((ranges.map (·.low)).filter (quantity < ·))) upper.low := by
  obtain ⟨lowers, uppers, rfl, hlowers, huppers⟩ := h.exists_split hdefined hmiss
  have ⟨hlower, hupper⟩ := h.of_append
  have ⟨hhighs, hlows⟩ := h.filter_of_split hlowers huppers
  rw [hhighs, hlows]
  -- The first range is below the quantity and the last one above, so there are ranges on each side.
  cases hnearest : lowers.getLast? with
  | none =>
    rw [List.getLast?_eq_none_iff.1 hnearest, List.nil_append] at hfirst
    exact absurd hlow (Amount.not_le_of_lt (huppers first (List.mem_of_head? hfirst)))
  | some lower =>
    cases hnext : uppers.head? with
    | none =>
      rw [List.head?_eq_none_iff.1 hnext, List.append_nil] at hlast
      exact absurd hhigh (Amount.not_le_of_lt (hlowers last (List.mem_of_getLast? hlast)))
    | some upper =>
      refine ⟨lowers.length - 1, lower, upper, ?_, ?_,
        hlower.samePlace_greatest_high hnearest, hlowers lower (List.mem_of_getLast? hnearest),
        huppers upper (List.mem_of_head? hnext), hupper.samePlace_least_low hnext⟩
      · obtain ⟨before, rfl⟩ := List.getLast?_eq_some_iff.1 hnearest
        simp
      · obtain ⟨before, rfl⟩ := List.getLast?_eq_some_iff.1 hnearest
        obtain ⟨after, rfl⟩ := List.head?_eq_some_iff.1 hnext
        simp

end Ascending

end Range

namespace RateTable

variable {α : Type} [Amount α] {table : RateTable α} {key : String} {quantity : α}
  {ranges : List (Range α)}

section Rows

variable {rows : List (Row α)} {index : Nat}

theorem rangeIndex?_eq_none_iff :
    rangeIndex? rows key quantity = none ↔ ∀ row ∈ rows, covers key quantity row = false := by
  unfold rangeIndex?
  rw [Option.map_eq_none_iff, List.findIdx?_eq_none_iff]

theorem covers_of_rangeIndex? (h : rangeIndex? rows key quantity = some index) :
    ∃ row, rows[index]? = some row ∧ covers key quantity row = true := by
  unfold rangeIndex? at h
  obtain ⟨first, hfirst, rfl⟩ := Option.map_eq_some_iff.1 h
  split
  next hnext => exact (Option.any_eq_true _ _).1 hnext
  next =>
    obtain ⟨hlt, hcovers, _⟩ := List.findIdx?_eq_some_iff_getElem.1 hfirst
    exact ⟨rows[first], List.getElem?_eq_getElem hlt, hcovers⟩

theorem getElem?_any_covers (h : rows.map (·.range? key) = ranges.map some) (index : Nat) :
    rows[index]?.any (covers key quantity) = ranges[index]?.any (·.contains quantity) := by
  calc rows[index]?.any (covers key quantity)
    _ = (rows.map (·.range? key))[index]?.any (·.any (·.contains quantity)) := by
      rw [List.getElem?_map, Option.any_map]
      rfl
    _ = ranges[index]?.any (·.contains quantity) := by
      rw [h, List.getElem?_map, Option.any_map]
      rfl

end Rows

theorem domainOf?_of_ranges (hkind : table.kind? key = some .metricRange)
    (hranges : table.rows.map (·.range? key) = ranges.map some) (hne : ranges ≠ []) :
    table.domainOf? key =
      some ⟨Amount.least (ranges.map (·.low)), Amount.greatest (ranges.map (·.high))⟩ := by
  unfold domainOf?
  rw [hkind]
  dsimp only
  rw [filterMap_eq_of_map_eq hranges]
  split
  next => exact absurd rfl hne
  next => rfl

theorem missFault_of_ranges (hkind : table.kind? key = some .metricRange)
    (hranges : table.rows.map (·.range? key) = ranges.map some) (hne : ranges ≠ []) :
    table.missFault .metricRange key (table.lookupDomain key) quantity =
      if Range.contains ⟨Amount.least (ranges.map (·.low)), Amount.greatest (ranges.map (·.high))⟩
          quantity then
        .rangeGap quantity (Amount.greatest ((ranges.map (·.high)).filter (· < quantity)))
          (Amount.least ((ranges.map (·.low)).filter (quantity < ·)))
      else
        .rangeExceeded quantity (Amount.least (ranges.map (·.low)))
          (Amount.greatest (ranges.map (·.high))) := by
  unfold missFault gapAround lookupDomain
  rw [domainOf?_of_ranges hkind hranges hne, filterMap_eq_of_map_eq hranges]
  simp

variable [LawfulAmount α]

/--
The bounds on the domain keep nothing back: the quantities they turn away are in no range.
-/
theorem index?_metricRange (hkind : table.kind? key = some .metricRange) :
    table.index? .metricRange key (table.lookupDomain key) quantity =
      rangeIndex? table.rows key quantity := by
  unfold index?
  split
  next hoff =>
    symm
    rw [rangeIndex?_eq_none_iff]
    intro row hrow
    rw [← Bool.not_eq_true]
    intro hcovers
    obtain ⟨range, _, hlow, _⟩ := covers_eq_true_iff.1 hcovers
    rw [(LawfulAmount.defined_of_le hlow).2, Bool.false_or, decide_eq_true_eq] at hoff
    exact not_lt_low_of_covers hkind hrow hcovers hoff
  next => rfl

theorem resolve_of_rangeIndex? (hkind : table.kind? key = some .metricRange) {index : Nat}
    (h : rangeIndex? table.rows key quantity = some index) :
    ∃ row, table.rows[index]? = some row ∧ covers key quantity row = true ∧
      ∀ mode, table.resolve key quantity mode = .ok (some { index, row }) := by
  obtain ⟨row, hrow, hcovers⟩ := covers_of_rangeIndex? h
  obtain ⟨column, hcolumn, hrange⟩ := filter_column?_of_kind? hkind rfl
  refine ⟨row, hrow, hcovers, ?_⟩
  apply resolve_eq_hit hcolumn
  rw [hrange]
  apply hit?_eq_some
  · rw [index?_metricRange hkind]
    exact h
  · exact hrow

theorem covers_of_resolve_eq_ok (hkind : table.kind? key = some .metricRange) {mode : Mode}
    {hit : Hit α} (h : table.resolve key quantity mode = .ok (some hit)) :
    covers key quantity hit.row = true := by
  obtain ⟨hindex, hrow⟩ := getElem?_of_hit?_eq_some (hit?_of_resolve_eq_ok hkind h)
  rw [index?_metricRange hkind] at hindex
  obtain ⟨row, hrow', hcovers⟩ := covers_of_rangeIndex? hindex
  obtain rfl := Option.some.inj (hrow.symm.trans hrow')
  exact hcovers

theorem resolve_of_not_covers (hkind : table.kind? key = some .metricRange)
    (h : ∀ row ∈ table.rows, covers key quantity row = false) :
    table.resolve key quantity .curve = .ok none ∧
      table.resolve key quantity .exact =
        .error (table.missFault .metricRange key (table.lookupDomain key) quantity) := by
  obtain ⟨column, hcolumn, hrange⟩ := filter_column?_of_kind? hkind rfl
  have hhit : table.hit? column.kind key quantity = none := by
    unfold hit?
    rw [hrange, index?_metricRange hkind, rangeIndex?_eq_none_iff.2 h]
    rfl
  refine ⟨resolve_curve_eq_none hcolumn hhit, ?_⟩
  rw [resolve_exact_eq_miss hcolumn hhit, hrange]

theorem exists_hit_iff (hkind : table.kind? key = some .metricRange) (mode : Mode) :
    (∃ hit, table.resolve key quantity mode = .ok (some hit) ∧
        table.rows[hit.index]? = some hit.row ∧ covers key quantity hit.row = true) ↔
      ∃ row ∈ table.rows, covers key quantity row = true := by
  constructor
  · rintro ⟨hit, _, hrow, hcovers⟩
    exact ⟨hit.row, List.mem_of_getElem? hrow, hcovers⟩
  · rintro ⟨row, hmem, hcovers⟩
    cases hindex : rangeIndex? table.rows key quantity with
    | none =>
      rw [rangeIndex?_eq_none_iff.1 hindex row hmem] at hcovers
      cases hcovers
    | some index =>
      obtain ⟨found, hfound, hcovers, hresolve⟩ := resolve_of_rangeIndex? hkind hindex
      exact ⟨_, hresolve mode, hfound, hcovers⟩

theorem resolve_exact_iff_curve (hkind : table.kind? key = some .metricRange) (hit : Hit α) :
    table.resolve key quantity .exact = .ok (some hit) ↔
      table.resolve key quantity .curve = .ok (some hit) := by
  cases hindex : rangeIndex? table.rows key quantity with
  | some index =>
    obtain ⟨row, _, _, hresolve⟩ := resolve_of_rangeIndex? hkind hindex
    rw [hresolve, hresolve]
  | none =>
    obtain ⟨hcurve, hexact⟩ := resolve_of_not_covers hkind (rangeIndex?_eq_none_iff.1 hindex)
    rw [hcurve, hexact]
    simp

theorem exists_ascending (hvalid : table.validate = .ok ())
    (hkind : table.kind? key = some .metricRange) (hdefined : table.RangesDefined key) :
    ∃ ranges : List (Range α), table.rows.map (·.range? key) = ranges.map some ∧
      Range.Ascending ranges := by
  obtain ⟨column, hmem, rfl, hrange⟩ := exists_column_of_kind? hkind
  have hchecked := checkLookupColumns_iff.1 (table.validate_eq_ok_iff.1 hvalid).2.1 column hmem
  obtain ⟨ranges, hranges, hupright, hapart⟩ :=
    (checkRanges_iff_rangesAscend hdefined).1 (hchecked.1 hrange)
  exact ⟨ranges, hranges, hupright, hapart⟩

/--
Between the first and the last range the fault of a quantity in none of them names the ends of its
neighbours, and elsewhere those of all ranges.
-/
theorem missFault_of_ascending (hkind : table.kind? key = some .metricRange)
    (hranges : table.rows.map (·.range? key) = ranges.map some) (h : Range.Ascending ranges)
    (hmiss : ∀ range ∈ ranges, range.contains quantity = false) {first last : Range α}
    (hfirst : ranges.head? = some first) (hlast : ranges.getLast? = some last) :
    (first.low ≤ quantity ∧ quantity ≤ last.high →
      ∃ below above i lower upper, ranges[i]? = some lower ∧ ranges[i + 1]? = some upper ∧
        Amount.SamePlace below lower.high ∧ lower.high < quantity ∧
        quantity < upper.low ∧ Amount.SamePlace above upper.low ∧
        table.missFault .metricRange key (table.lookupDomain key) quantity =
          .rangeGap quantity below above) ∧
    (¬(first.low ≤ quantity ∧ quantity ≤ last.high) →
      ∃ low high, Amount.SamePlace low first.low ∧ Amount.SamePlace high last.high ∧
        table.missFault .metricRange key (table.lookupDomain key) quantity =
          .rangeExceeded quantity low high) := by
  have hne : ranges ≠ [] := by
    rintro rfl
    cases hfirst
  have hlow := h.samePlace_least_low hfirst
  have hhigh := h.samePlace_greatest_high hlast
  rw [missFault_of_ranges hkind hranges hne]
  simp only [Range.contains_eq_true_iff, hlow.le_iff, hhigh.ge_iff]
  constructor
  · intro hwithin
    obtain ⟨i, lower, upper, hlower, hupper, hbelow, hlt, hgt, habove⟩ := h.exists_neighbours
      (LawfulAmount.defined_of_le hwithin.1).2 hmiss hfirst hlast hwithin.1 hwithin.2
    exact ⟨_, _, i, lower, upper, hlower, hupper, hbelow, hlt, hgt, habove, if_pos hwithin⟩
  · intro houtside
    exact ⟨_, _, hlow, hhigh, if_neg houtside⟩

/--
A quantity is in some range, between two neighbours, or outside of all ranges, and a lookup tells
which.
-/
theorem resolve_range_trichotomy (hvalid : table.validate = .ok ())
    (hkind : table.kind? key = some .metricRange) (hdefined : table.RangesDefined key)
    (quantity : α) :
    ∃ ranges : List (Range α), table.rows.map (·.range? key) = ranges.map some ∧
      (∀ mode, (∃ hit, table.resolve key quantity mode = .ok (some hit) ∧
          table.rows[hit.index]? = some hit.row ∧ covers key quantity hit.row = true) ↔
        ∃ row ∈ table.rows, covers key quantity row = true) ∧
      (∀ hit, table.resolve key quantity .exact = .ok (some hit) ↔
        table.resolve key quantity .curve = .ok (some hit)) ∧
      ((∀ row ∈ table.rows, covers key quantity row = false) →
        table.resolve key quantity .curve = .ok none ∧
        ∃ fault, table.resolve key quantity .exact = .error fault ∧ fault.isRangeMiss = true ∧
          ∀ first ∈ ranges.head?, ∀ last ∈ ranges.getLast?,
            ((∃ below above, fault = .rangeGap quantity below above) ↔
              first.low ≤ quantity ∧ quantity ≤ last.high) ∧
            (∀ below above, fault = .rangeGap quantity below above →
              ∃ i lower upper, ranges[i]? = some lower ∧ ranges[i + 1]? = some upper ∧
                Amount.SamePlace below lower.high ∧ lower.high < quantity ∧
                quantity < upper.low ∧ Amount.SamePlace above upper.low) ∧
            (¬(first.low ≤ quantity ∧ quantity ≤ last.high) →
              ∃ low high, fault = .rangeExceeded quantity low high ∧
                Amount.SamePlace low first.low ∧ Amount.SamePlace high last.high)) := by
  obtain ⟨ranges, hranges, hascending⟩ := exists_ascending hvalid hkind hdefined
  refine ⟨ranges, hranges, exists_hit_iff hkind, resolve_exact_iff_curve hkind, ?_⟩
  intro hmiss
  obtain ⟨hcurve, hexact⟩ := resolve_of_not_covers hkind hmiss
  refine ⟨hcurve, _, hexact, isRangeMiss_missFault .., ?_⟩
  intro first hfirst last hlast
  have hmiss' : ∀ range ∈ ranges, range.contains quantity = false := by
    rw [← forall_mem_of_map_eq hranges]
    intro row hmem range hrange
    simpa [covers, hrange] using hmiss row hmem
  obtain ⟨hgap, hexceeded⟩ :=
    missFault_of_ascending hkind hranges hascending hmiss' hfirst hlast
  by_cases hwithin : first.low ≤ quantity ∧ quantity ≤ last.high
  · obtain ⟨below, above, i, lower, upper, hlower, hupper, hbelow, hlt, hgt, habove, hfault⟩ :=
      hgap hwithin
    rw [hfault]
    refine ⟨iff_of_true ⟨below, above, rfl⟩ hwithin, ?_, fun houtside => absurd hwithin houtside⟩
    rintro _ _ ⟨⟩
    exact ⟨i, lower, upper, hlower, hupper, hbelow, hlt, hgt, habove⟩
  · obtain ⟨low, high, hlow, hhigh, hfault⟩ := hexceeded hwithin
    rw [hfault]
    refine ⟨iff_of_false ?_ hwithin, ?_, fun _ => ⟨low, high, rfl, hlow, hhigh⟩⟩
    · rintro ⟨below, above, ⟨⟩⟩
    · rintro below above ⟨⟩

theorem resolve_growth_gap :
    growth.validate = .ok () ∧ growth.kind? "range" = some .metricRange ∧
    growth.RangesDefined "range" ∧
    growth.resolve "range" 100.5 .curve = .ok none ∧
    ∃ below above, growth.resolve "range" 100.5 .exact = .error (.rangeGap 100.5 below above) ∧
      (below == 100) = true ∧ (above == 101) = true := by
  have hvalid : growth.validate = .ok () := eq_ok_of_isOk (by decide +kernel)
  have hkind : growth.kind? "range" = some .metricRange := by decide +kernel
  have hdefined : growth.RangesDefined "range" := by decide +kernel
  obtain ⟨ranges, hranges, _, _, hmissed⟩ := resolve_range_trichotomy hvalid hkind hdefined 100.5
  have hcells : growth.rows.map (·.range? "range") = [⟨0, 100⟩, ⟨101, 200⟩].map some := by
    simp [growth, Row.range?, Row.insert]
  obtain rfl : [⟨0, 100⟩, ⟨101, 200⟩] = ranges :=
    List.map_injective_iff.2 (fun _ _ => Option.some.inj) (hcells.symm.trans hranges)
  have hmiss : ∀ row ∈ growth.rows, covers "range" (100.5 : Float) row = false := by
    decide +kernel
  obtain ⟨hcurve, fault, hexact, _, htold⟩ := hmissed hmiss
  obtain ⟨hgap, hends, _⟩ := htold ⟨0, 100⟩ rfl ⟨101, 200⟩ rfl
  obtain ⟨below, above, rfl⟩ := hgap.2 (by decide +kernel)
  obtain ⟨i, lower, upper, hlower, hupper, hbelow, _, _, habove⟩ := hends below above rfl
  rw [Amount.samePlace_iff_beq] at hbelow habove
  refine ⟨hvalid, hkind, hdefined, hcurve, below, above, hexact, ?_⟩
  match i with
  | 0 =>
    cases hlower
    cases hupper
    exact ⟨hbelow, habove⟩
  | i + 1 => simp at hupper

end RateTable

end Tariff
