import Tariff.Proofs.RangeLookup

/-!
This module contains what a lookup in a column of thresholds answers. The thresholds of a usable
table ascend, so the first one that is not below a quantity is the only one with the one before it
below the quantity. The domain begins at zero, or at the first threshold if that is negative.
-/

namespace Tariff

namespace Amount

variable {α : Type} [Amount α] {a first last : α} {xs rest : List α}

theorem foldl_lesser_eq_self (ha : isNaN a = false) (h : ∀ b ∈ xs, ¬b < a) :
    xs.foldl lesser a = a := by
  induction xs with
  | nil => rfl
  | cons b xs ih =>
    obtain ⟨hb, hxs⟩ := List.forall_mem_cons.1 h
    rw [List.foldl_cons]
    have hkept : lesser a b = a := by simp [lesser, ha, hb]
    rw [hkept]
    exact ih hxs

theorem foldl_greater_eq_last (h : (first :: rest).Pairwise (· < ·))
    (hlast : (first :: rest).getLast? = some last) : rest.foldl greater first = last := by
  induction rest generalizing first with
  | nil =>
    cases hlast
    rfl
  | cons second rest ih =>
    have hlt : first < second := List.rel_of_pairwise_cons h List.mem_cons_self
    rw [List.foldl_cons]
    have htaken : greater first second = second := by simp [greater, hlt]
    rw [htaken]
    exact ih h.of_cons (by rwa [List.getLast?_cons_cons] at hlast)

theorem least_cons (h : ∀ a ∈ first :: rest, isNaN a = false) :
    least (first :: rest) = rest.foldl lesser first := by
  have hall : (first :: rest).filter (!isNaN ·) = first :: rest :=
    List.filter_eq_self.2 (by simpa using h)
  unfold least
  rw [hall]

theorem greatest_cons (h : ∀ a ∈ first :: rest, isNaN a = false) :
    greatest (first :: rest) = rest.foldl greater first := by
  have hall : (first :: rest).filter (!isNaN ·) = first :: rest :=
    List.filter_eq_self.2 (by simpa using h)
  unfold greatest
  rw [hall]

end Amount

/--
A position in a list of ascending bounds is the one of a quantity: the bound there is not below the
quantity, and the one before is.
-/
structure IsBracket {α : Type} [Amount α] (bounds : List α) (quantity : α) (index : Nat) :
    Prop where
  upper : ∃ bound, bounds[index]? = some bound ∧ quantity ≤ bound
  lower : index = 0 ∨ ∃ before, bounds[index - 1]? = some before ∧ before < quantity

section Bounds

variable {α : Type} [Amount α] [LawfulAmount α] {bounds : List α} {first last quantity : α}
  {index : Nat}

theorem isBracket_iff_findIdx? (h : bounds.Pairwise (· < ·)) :
    IsBracket bounds quantity index ↔ bounds.findIdx? (quantity ≤ ·) = some index := by
  rw [List.findIdx?_eq_some_iff_getElem]
  simp only [decide_eq_true_eq]
  constructor
  · rintro ⟨⟨bound, hbound, hle⟩, hlower⟩
    obtain ⟨hlt, rfl⟩ := List.getElem?_eq_some_iff.1 hbound
    refine ⟨hlt, hle, ?_⟩
    intro j hj hbelow
    rcases hlower with rfl | ⟨before, hbefore, habove⟩
    · exact absurd hj (Nat.not_lt_zero j)
    · obtain ⟨hpred, rfl⟩ := List.getElem?_eq_some_iff.1 hbefore
      -- The bound before is the greatest of those that the search has passed.
      have hle' : quantity ≤ bounds[index - 1] := by
        rcases Nat.lt_or_ge j (index - 1) with hlt' | hge
        · exact LawfulAmount.le_trans hbelow
            (Amount.le_of_lt (List.pairwise_iff_getElem.1 h j (index - 1) _ hpred hlt'))
        · have : j = index - 1 := by omega
          exact this ▸ hbelow
      exact Amount.not_le_of_lt habove hle'
  · rintro ⟨hlt, hle, hfirst⟩
    refine ⟨⟨bounds[index], List.getElem?_eq_getElem hlt, hle⟩, ?_⟩
    rcases Nat.eq_zero_or_pos index with hzero | hpos
    · exact .inl hzero
    · have hpred : index - 1 < bounds.length := by omega
      refine .inr ⟨bounds[index - 1], List.getElem?_eq_getElem hpred, ?_⟩
      have hbefore : bounds[index - 1] < bounds[index] :=
        List.pairwise_iff_getElem.1 h (index - 1) index hpred hlt (by omega)
      have hdefined := (LawfulAmount.defined_of_le (Amount.le_of_lt hbefore)).1
      rw [← Amount.not_le_iff hdefined (LawfulAmount.defined_of_le hle).1]
      exact hfirst (index - 1) (by omega)

theorem IsBracket.unique (h : bounds.Pairwise (· < ·)) {index' : Nat}
    (hindex : IsBracket bounds quantity index) (hindex' : IsBracket bounds quantity index') :
    index = index' := by
  rw [isBracket_iff_findIdx? h] at hindex hindex'
  exact Option.some.inj (hindex.symm.trans hindex')

theorem IsBracket.mono (h : bounds.Pairwise (· < ·)) {quantity' : α} {index' : Nat}
    (hle : quantity ≤ quantity') (hindex : IsBracket bounds quantity index)
    (hindex' : IsBracket bounds quantity' index') : index ≤ index' := by
  rw [isBracket_iff_findIdx? h, List.findIdx?_eq_some_iff_getElem] at hindex hindex'
  obtain ⟨_, _, hfirst⟩ := hindex
  obtain ⟨hlt, habove, _⟩ := hindex'
  rw [decide_eq_true_eq] at habove
  by_contra hgt
  exact hfirst index' (by omega) (decide_eq_true (LawfulAmount.le_trans hle habove))

theorem le_last_of_pairwise (h : bounds.Pairwise (· < ·))
    (hdefined : ∀ bound ∈ bounds, Amount.isNaN bound = false) (hlast : bounds.getLast? = some last)
    {bound : α} (hmem : bound ∈ bounds) : bound ≤ last := by
  obtain ⟨rest, rfl⟩ := List.getLast?_eq_some_iff.1 hlast
  rcases List.mem_append.1 hmem with hrest | hsame
  · exact Amount.le_of_lt ((List.pairwise_append.1 h).2.2 bound hrest last (.head _))
  · rw [List.mem_singleton.1 hsame]
    exact Amount.le_refl (hdefined last (List.mem_append_right _ (.head _)))

theorem exists_isBracket_iff (h : bounds.Pairwise (· < ·))
    (hdefined : ∀ bound ∈ bounds, Amount.isNaN bound = false)
    (hlast : bounds.getLast? = some last) :
    (∃ index, IsBracket bounds quantity index) ↔ quantity ≤ last := by
  simp only [isBracket_iff_findIdx? h]
  constructor
  · rintro ⟨index, hindex⟩
    obtain ⟨hlt, hle, _⟩ := List.findIdx?_eq_some_iff_getElem.1 hindex
    exact LawfulAmount.le_trans (of_decide_eq_true hle)
      (le_last_of_pairwise h hdefined hlast (List.getElem_mem hlt))
  · intro hle
    rw [← Option.isSome_iff_exists, List.findIdx?_isSome, List.any_eq_true]
    exact ⟨last, List.mem_of_getLast? hlast, decide_eq_true hle⟩

end Bounds

namespace RateTable

variable {α : Type} [Amount α] {table : RateTable α} {key : String} {quantity : α}
  {bounds : List α} {first last : α} {index : Nat}

theorem thresholdIndex?_eq_findIdx? {rows : List (Row α)}
    (h : rows.map (·.number? key) = bounds.map some) :
    thresholdIndex? rows key quantity = bounds.findIdx? (quantity ≤ ·) := by
  calc thresholdIndex? rows key quantity
    _ = (rows.map (·.number? key)).findIdx? (·.any (quantity ≤ ·)) := by
      rw [List.findIdx?_map]
      rfl
    _ = bounds.findIdx? (quantity ≤ ·) := by
      rw [h, List.findIdx?_map]
      rfl

variable [LawfulAmount α]

/--
The rows of a table, of which there are some, ascend in a column of thresholds.
-/
structure HasThresholds (table : RateTable α) (key : String) (bounds : List α) (first last : α) :
    Prop where
  kind : table.kind? key = some .threshold
  rows : table.rows.map (·.number? key) = bounds.map some
  ascends : bounds.Pairwise (· < ·)
  defined : ∀ bound ∈ bounds, Amount.isNaN bound = false
  first : bounds.head? = some first
  last : bounds.getLast? = some last

theorem exists_hasThresholds (hvalid : table.validate = .ok ())
    (hkind : table.kind? key = some .threshold) (hdefined : table.ThresholdsDefined key)
    (hrows : table.rows ≠ []) : ∃ bounds first last, table.HasThresholds key bounds first last := by
  obtain ⟨column, hmem, rfl, hthreshold⟩ := exists_column_of_kind? hkind
  have hchecked := checkLookupColumns_iff.1 (table.validate_eq_ok_iff.1 hvalid).2.1 column hmem
  obtain ⟨bounds, hbounds, hascends⟩ :=
    (checkThresholds_iff_thresholdsAscend hdefined).1 (hchecked.2 hthreshold)
  have hne : bounds ≠ [] := by
    rintro rfl
    exact hrows (List.map_eq_nil_iff.1 hbounds)
  exact ⟨bounds, bounds.head hne, bounds.getLast hne, hkind, hbounds, hascends,
    (forall_mem_of_map_eq hbounds).1 hdefined, List.head?_eq_some_head hne,
    List.getLast?_eq_some_getLast hne⟩

namespace HasThresholds

theorem domainOf?_eq (h : table.HasThresholds key bounds first last) :
    table.domainOf? key = some ⟨Amount.lesser Amount.zero first, last⟩ := by
  obtain ⟨rest, rfl⟩ := List.head?_eq_some_iff.1 h.first
  have hzero : Amount.isNaN (Amount.zero : α) = false := LawfulAmount.zero_defined
  have hfirst := h.defined first List.mem_cons_self
  have hlow : Amount.least (Amount.zero :: first :: rest) = Amount.lesser Amount.zero first := by
    rw [Amount.least_cons (List.forall_mem_cons.2 ⟨hzero, h.defined⟩), List.foldl_cons]
    apply Amount.foldl_lesser_eq_self (Amount.isNaN_lesser hzero hfirst)
    intro bound hmem hlt
    have hle := LawfulAmount.le_trans (Amount.lesser_le hzero hfirst).2
      (Amount.le_of_lt (List.rel_of_pairwise_cons h.ascends hmem))
    exact Amount.not_le_of_lt hlt hle
  have hhigh : Amount.greatest (first :: rest) = last := by
    rw [Amount.greatest_cons h.defined]
    exact Amount.foldl_greater_eq_last h.ascends h.last
  unfold domainOf?
  rw [h.kind]
  dsimp only
  rw [filterMap_eq_of_map_eq h.rows]
  dsimp only
  rw [hlow, hhigh]

theorem lookupDomain_eq (h : table.HasThresholds key bounds first last) :
    table.lookupDomain key = ⟨Amount.lesser Amount.zero first, last⟩ := by
  unfold lookupDomain
  rw [h.domainOf?_eq]
  rfl

theorem index?_eq_some_iff (h : table.HasThresholds key bounds first last) :
    table.index? .threshold key (table.lookupDomain key) quantity = some index ↔
      Amount.lesser Amount.zero first ≤ quantity ∧ IsBracket bounds quantity index := by
  have hlow : Amount.isNaN (Amount.lesser Amount.zero first) = false :=
    Amount.isNaN_lesser LawfulAmount.zero_defined (h.defined first (List.mem_of_head? h.first))
  rw [isBracket_iff_findIdx? h.ascends, ← thresholdIndex?_eq_findIdx? h.rows, h.lookupDomain_eq]
  unfold index?
  split
  next hoff =>
    -- What is off the domain does not compare with its low end in the other direction.
    simp only [reduceCtorEq, false_iff, not_and]
    intro hle
    rw [(LawfulAmount.defined_of_le hle).2, Bool.false_or, decide_eq_true_eq] at hoff
    exact absurd hle (Amount.not_le_of_lt hoff)
  next hon =>
    simp only [Bool.or_eq_true, decide_eq_true_eq, not_or, Bool.not_eq_true] at hon
    have hle := (Amount.not_lt_iff hlow hon.1).1 hon.2
    simp only [hle, true_and]

theorem resolve_eq_ok_iff (h : table.HasThresholds key bounds first last) {mode : Mode}
    {hit : Hit α} :
    table.resolve key quantity mode = .ok (some hit) ↔
      table.rows[hit.index]? = some hit.row ∧
      Amount.lesser Amount.zero first ≤ quantity ∧ IsBracket bounds quantity hit.index := by
  rw [← h.index?_eq_some_iff]
  constructor
  · intro hresolve
    exact (getElem?_of_hit?_eq_some (hit?_of_resolve_eq_ok h.kind hresolve)).symm
  · rintro ⟨hrow, hindex⟩
    obtain ⟨column, hcolumn, hkind⟩ := filter_column?_of_kind? h.kind rfl
    apply resolve_eq_hit hcolumn
    rw [hkind]
    exact hit?_eq_some hindex hrow

theorem exists_resolve_iff (h : table.HasThresholds key bounds first last) (mode : Mode) :
    (∃ hit, table.resolve key quantity mode = .ok (some hit)) ↔
      Amount.lesser Amount.zero first ≤ quantity ∧ quantity ≤ last := by
  rw [← exists_isBracket_iff h.ascends h.defined h.last]
  constructor
  · rintro ⟨hit, hresolve⟩
    obtain ⟨_, hlow, hbracket⟩ := h.resolve_eq_ok_iff.1 hresolve
    exact ⟨hlow, hit.index, hbracket⟩
  · rintro ⟨hlow, index, hbracket⟩
    obtain ⟨bound, hbound, _⟩ := hbracket.upper
    have hcell : table.rows[index]?.map (·.number? key) = some (some bound) := by
      rw [← List.getElem?_map, h.rows, List.getElem?_map, hbound]
      rfl
    obtain ⟨row, hrow, _⟩ := Option.map_eq_some_iff.1 hcell
    exact ⟨{ index, row }, h.resolve_eq_ok_iff.2 ⟨hrow, hlow, hbracket⟩⟩

theorem resolve_of_outside (h : table.HasThresholds key bounds first last)
    (houtside : ¬(Amount.lesser Amount.zero first ≤ quantity ∧ quantity ≤ last)) :
    table.resolve key quantity .curve = .ok none ∧
      table.resolve key quantity .exact =
        .error (.rangeExceeded quantity (Amount.lesser Amount.zero first) last) := by
  obtain ⟨column, hcolumn, hkind⟩ := filter_column?_of_kind? h.kind rfl
  have hhit : table.hit? column.kind key quantity = none := by
    cases hhit : table.hit? column.kind key quantity with
    | none => rfl
    | some hit =>
      exact absurd ((h.exists_resolve_iff .exact).1 ⟨hit, resolve_eq_hit hcolumn hhit .exact⟩)
        houtside
  refine ⟨resolve_curve_eq_none hcolumn hhit, ?_⟩
  rw [resolve_exact_eq_miss hcolumn hhit, hkind, h.lookupDomain_eq]
  rfl

end HasThresholds

/--
A quantity has a row if and only if it is in the domain, and then the one row whose threshold is the
first that is not below it. The fault of another quantity names the ends of the domain.
-/
theorem resolve_threshold_brackets (hvalid : table.validate = .ok ())
    (hkind : table.kind? key = some .threshold) (hdefined : table.ThresholdsDefined key)
    (hrows : table.rows ≠ []) :
    ∃ (bounds : List α) (first last : α), table.rows.map (·.number? key) = bounds.map some ∧
      bounds.Pairwise (· < ·) ∧ bounds.head? = some first ∧ bounds.getLast? = some last ∧
      (∀ quantity mode, (∃ hit, table.resolve key quantity mode = .ok (some hit)) ↔
        Amount.lesser Amount.zero first ≤ quantity ∧ quantity ≤ last) ∧
      (∀ quantity mode hit, table.resolve key quantity mode = .ok (some hit) →
        table.rows[hit.index]? = some hit.row ∧
        (∀ index, IsBracket bounds quantity index ↔ index = hit.index) ∧
        ∀ mode', table.resolve key quantity mode' = .ok (some hit)) ∧
      (∀ quantity, ¬(Amount.lesser Amount.zero first ≤ quantity ∧ quantity ≤ last) →
        table.resolve key quantity .curve = .ok none ∧
        table.resolve key quantity .exact =
          .error (.rangeExceeded quantity (Amount.lesser Amount.zero first) last)) ∧
      ∀ mode mode' (quantity quantity' : α) (hit hit' : Hit α), quantity ≤ quantity' →
        table.resolve key quantity mode = .ok (some hit) →
        table.resolve key quantity' mode' = .ok (some hit') → hit.index ≤ hit'.index := by
  obtain ⟨bounds, first, last, h⟩ := exists_hasThresholds hvalid hkind hdefined hrows
  refine ⟨bounds, first, last, h.rows, h.ascends, h.first, h.last,
    fun quantity mode => h.exists_resolve_iff mode, ?_, fun quantity => h.resolve_of_outside, ?_⟩
  · intro quantity mode hit hresolve
    obtain ⟨hrow, _, hbracket⟩ := h.resolve_eq_ok_iff.1 hresolve
    refine ⟨hrow, ?_, resolve_congr_mode hresolve⟩
    intro index
    constructor
    · intro hindex
      exact hindex.unique h.ascends hbracket
    · rintro rfl
      exact hbracket
  · intro mode mode' quantity quantity' hit hit' hle hresolve hresolve'
    obtain ⟨_, _, hbracket⟩ := h.resolve_eq_ok_iff.1 hresolve
    obtain ⟨_, _, hbracket'⟩ := h.resolve_eq_ok_iff.1 hresolve'
    exact hbracket.mono h.ascends hle hbracket'

/--
A table whose domain begins below zero, with a threshold of zero inside.
-/
def balances : RateTable Float where
  columns := [quota]
  rows := [Row.insert ∅ "upto" (.number (-5)), Row.insert ∅ "upto" (.number 0),
    Row.insert ∅ "upto" (.number 10)]

theorem resolve_balances_brackets :
    balances.validate = .ok () ∧ balances.kind? "upto" = some .threshold ∧
    balances.ThresholdsDefined "upto" ∧ balances.rows ≠ [] ∧
    (∃ hit, (∀ mode, balances.resolve "upto" (-2) mode = .ok (some hit)) ∧ hit.index = 1) ∧
    balances.resolve "upto" (-6) .curve = .ok none ∧
    ∃ low high, balances.resolve "upto" (-6) .exact = .error (.rangeExceeded (-6) low high) ∧
      (low == -5) = true ∧ (high == 10) = true := by
  have hvalid : balances.validate = .ok () := eq_ok_of_isOk (by decide +kernel)
  have hkind : balances.kind? "upto" = some .threshold := by decide +kernel
  have hdefined : balances.ThresholdsDefined "upto" := by decide +kernel
  have hrows : balances.rows ≠ [] := List.cons_ne_nil _ _
  obtain ⟨bounds, first, last, hbounds, _, hfirst, hlast, hwithin, hfound, hmissed, _⟩ :=
    resolve_threshold_brackets hvalid hkind hdefined hrows
  have hcells : balances.rows.map (·.number? "upto") = [-5, 0, 10].map some := by
    simp [balances, Row.number?, Row.insert]
  obtain rfl : [-5, 0, 10] = bounds :=
    List.map_injective_iff.2 (fun _ _ => Option.some.inj) (hcells.symm.trans hbounds)
  cases hfirst
  cases hlast
  obtain ⟨hit, hhit⟩ := (hwithin (-2) .exact).2 (by decide +kernel)
  obtain ⟨_, hindex, hmodes⟩ := hfound _ _ _ hhit
  have hbracket : IsBracket [-5, 0, 10] (-2 : Float) 1 :=
    ⟨⟨0, rfl, by decide +kernel⟩, .inr ⟨-5, rfl, by decide +kernel⟩⟩
  obtain ⟨hcurve, hexact⟩ := hmissed (-6) (by decide +kernel)
  exact ⟨hvalid, hkind, hdefined, hrows, ⟨hit, hmodes, ((hindex 1).1 hbracket).symm⟩, hcurve,
    _, _, hexact, by decide +kernel, by decide +kernel⟩

end RateTable

end Tariff
