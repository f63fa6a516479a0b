import Tariff.Proofs.Agreement
import Tariff.Proofs.Domain
import Tariff.Proofs.Validate

/-!
This module contains what a row that is put below all others does to a table: prices of quantities
that its ranges do not reach stay as they are.
-/

namespace Tariff

variable {α : Type}

namespace RateTable

def withRow (table : RateTable α) (row : Row α) : RateTable α where
  columns := table.columns
  rows := table.rows ++ [row]

variable [Amount α]

theorem covers_eq_false [LawfulAmount α] {key : String} {quantity : α} {row : Row α}
    (hbelow : ∀ range, row.range? key = some range → quantity < range.low) :
    covers key quantity row = false := by
  rw [← Bool.not_eq_true, covers_eq_true_iff]
  rintro ⟨range, hrange, hlow, _⟩
  exact Amount.not_le_of_lt (hbelow range hrange) hlow

theorem any_getElem?_append {β : Type} {p : β → Bool} {x : β} (hx : p x = false) (xs : List β)
    (i : Nat) : (xs ++ [x])[i]?.any p = xs[i]?.any p := by
  rcases Nat.lt_trichotomy i xs.length with hlt | heq | hgt
  · rw [List.getElem?_append_left hlt]
  · simp [heq, hx]
  · rw [List.getElem?_eq_none (by simp; omega), List.getElem?_eq_none (by omega)]

theorem thresholdIndex?_append {rows : List (Row α)} {key : String} {quantity : α} {index : Nat}
    (h : thresholdIndex? rows key quantity = some index) (row : Row α) :
    thresholdIndex? (rows ++ [row]) key quantity = some index := by
  unfold thresholdIndex? at *
  rw [List.findIdx?_append, h]
  rfl

theorem rangeIndex?_append {rows : List (Row α)} {key : String} {quantity : α} {index : Nat}
    {row : Row α} (hrow : covers key quantity row = false)
    (h : rangeIndex? rows key quantity = some index) :
    rangeIndex? (rows ++ [row]) key quantity = some index := by
  unfold rangeIndex? at *
  obtain ⟨first, hfirst, _⟩ := Option.map_eq_some_iff.1 h
  rw [List.findIdx?_append, hfirst, Option.some_or, ← h, hfirst]
  simp only [any_getElem?_append hrow]

variable [LawfulAmount α]

theorem not_lt_low_withRow_range {table : RateTable α} {key : String} {quantity : α} {index : Nat}
    (hkind : table.kind? key = some .metricRange)
    (hindex : rangeIndex? table.rows key quantity = some index) (row : Row α) :
    ¬quantity < ((table.withRow row).lookupDomain key).low := by
  obtain ⟨covering, hmem, hcovers⟩ := exists_covers_of_rangeIndex? hindex
  have hmem' : covering ∈ (table.withRow row).rows := List.mem_append_left _ hmem
  exact not_lt_low_of_covers hkind hmem' hcovers

theorem not_lt_low_withRow_threshold {table : RateTable α} {key : String} {quantity : α}
    {index : Nat} (hkind : table.kind? key = some .threshold)
    (hindex : thresholdIndex? table.rows key quantity = some index)
    (hlow : ¬quantity < (table.lookupDomain key).low) (row : Row α) :
    ¬quantity < ((table.withRow row).lookupDomain key).low := by
  -- The domain begins at zero or below, so one more threshold can only extend it downwards.
  obtain ⟨bounded, hmem, bound, hbound, _⟩ := exists_bound_of_thresholdIndex? hindex
  have hmem' : bounded ∈ (table.withRow row).rows := List.mem_append_left _ hmem
  have hkind' : (table.withRow row).kind? key = some .threshold := hkind
  rw [lt_low_threshold_iff hkind hmem hbound] at hlow
  rw [lt_low_threshold_iff hkind' hmem' hbound]
  rintro ⟨hzero, hall⟩
  apply hlow
  refine ⟨hzero, ?_⟩
  intro other hother
  exact hall other (List.mem_append_left _ hother)

theorem index?_withRow {table : RateTable α} {kind : ColumnKind} {key : String} {quantity : α}
    {index : Nat} {row : Row α} (hkind : table.kind? key = some kind)
    (hbelow : kind = .metricRange → ∀ range, row.range? key = some range → quantity < range.low)
    (h : table.index? kind key (table.lookupDomain key) quantity = some index) :
    (table.withRow row).index? kind key ((table.withRow row).lookupDomain key) quantity =
      some index := by
  unfold index? at *
  split at h
  next => cases h
  next hdomain =>
    simp only [Bool.or_eq_true, decide_eq_true_eq, not_or] at hdomain
    have ⟨hdefined, hlow⟩ := hdomain
    cases kind with
    | metricRange =>
      have hlow' := not_lt_low_withRow_range hkind h row
      simp only [hdefined, hlow', decide_false, Bool.or_false, Bool.false_eq_true, ↓reduceIte]
      exact rangeIndex?_append (covers_eq_false (hbelow rfl)) h
    | threshold =>
      have hlow' := not_lt_low_withRow_threshold hkind h hlow row
      simp only [hdefined, hlow', decide_false, Bool.or_false, Bool.false_eq_true, ↓reduceIte]
      exact thresholdIndex?_append h row
    | _ => cases h

theorem hit?_withRow {table : RateTable α} {kind : ColumnKind} {key : String} {quantity : α}
    {hit : Hit α} {row : Row α} (hkind : table.kind? key = some kind)
    (hbelow : kind = .metricRange → ∀ range, row.range? key = some range → quantity < range.low)
    (h : table.hit? kind key quantity = some hit) :
    (table.withRow row).hit? kind key quantity = some hit := by
  have ⟨hindex, hrow⟩ := getElem?_of_hit?_eq_some h
  have ⟨hlt, _⟩ := List.getElem?_eq_some_iff.1 hrow
  apply hit?_eq_some (index?_withRow hkind hbelow hindex)
  rw [← hrow]
  exact List.getElem?_append_left hlt

theorem resolve_withRow_agrees {table : RateTable α} {row : Row α} {key : String} {quantity : α}
    (hbelow : ∀ column ∈ table.columns, column.kind = .metricRange → column.key = key →
      ∀ range, row.range? key = some range → quantity < range.low) :
    AgreesUnlessMiss (table.resolve key quantity .exact)
      ((table.withRow row).resolve key quantity .exact) := by
  have hsame : (table.withRow row).column? key = table.column? key := rfl
  apply resolve_agrees hsame
  intro column hit hcolumn _ hhit
  have hkind : table.kind? key = some column.kind := by
    unfold kind?
    rw [hcolumn]
    rfl
  have ⟨hmem, hkey⟩ := mem_columns_of_column? hcolumn
  apply hit?_withRow hkind _ hhit
  intro hrange
  exact hbelow column hmem hrange hkey

end RateTable

namespace Script

variable [Amount α]

theorem threePartCurve_withRow_agrees {table : RateTable α} {row : Row α} {thresholdKey : String}
    {quantity : α}
    (hresolve : AgreesUnlessMiss (table.resolve thresholdKey quantity .exact)
      ((table.withRow row).resolve thresholdKey quantity .exact))
    (feeKey overageKey : String) (budget : Nat) (discounted : Option α) :
    AgreesUnlessMiss
      ((threePartCurve thresholdKey feeKey overageKey).evaluate table quantity .exact budget
        discounted)
      ((threePartCurve thresholdKey feeKey overageKey).evaluate (table.withRow row) quantity .exact
        budget discounted) := by
  have hkind : ∀ key, (table.withRow row).kind? key = table.kind? key :=
    RateTable.kind?_congr rfl
  unfold evaluate
  apply AgreesUnlessMiss.bind hresolve
  intro hit? _
  simp only [field_congr hkind]
  exact .refl _

theorem graduated_withRow_agrees {table : RateTable α} {row : Row α} {rangeKey : String}
    {quantity : α}
    (hresolve : AgreesUnlessMiss (table.resolve rangeKey quantity .exact)
      ((table.withRow row).resolve rangeKey quantity .exact))
    (rateKey : String) (budget : Nat) (discounted : Option α) :
    AgreesUnlessMiss
      ((graduated rangeKey rateKey).evaluate table quantity .exact budget discounted)
      ((graduated rangeKey rateKey).evaluate (table.withRow row) quantity .exact budget
        discounted) := by
  have hkind : ∀ key, (table.withRow row).kind? key = table.kind? key :=
    RateTable.kind?_congr rfl
  unfold evaluate
  apply AgreesUnlessMiss.bind hresolve
  intro hit? hresolved
  cases hit? with
  | none => exact .refl _
  | some hit =>
    -- Bands above the one that is found are not charged, so the new row is not either.
    have hlt := RateTable.index_lt_of_resolve_eq_ok hresolved
    have hrows : (table.withRow row).rows.take (hit.index + 1) =
        table.rows.take (hit.index + 1) :=
      List.take_append_of_le_length hlt
    dsimp only
    rw [hrows, charge_congr hkind]
    exact .refl _

end Script

namespace Evaluator

variable [Amount α] [LawfulAmount α]

theorem evaluate_withRow_of_below (evaluator : Evaluator) {table : RateTable α} {row : Row α}
    {quantities : Quantities α}
    (hbelow : ∀ column ∈ table.columns, column.kind = .metricRange →
      ∀ quantity, quantities.find? column.key = some quantity →
      ∀ range, row.range? column.key = some range → quantity < range.low)
    (discounted : Option α) {result : PriceResult α}
    (h : evaluator.evaluate table quantities .exact discounted = .ok result) :
    evaluator.evaluate (table.withRow row) quantities .exact discounted = .ok result := by
  have hcolumns : (table.withRow row).columns = table.columns := rfl
  have hresolve : ∀ key quantity, quantities.find? key = some quantity →
      AgreesUnlessMiss (table.resolve key quantity .exact)
        ((table.withRow row).resolve key quantity .exact) := by
    intro key quantity hquantity
    apply RateTable.resolve_withRow_agrees
    rintro column hcolumn hkind rfl
    exact hbelow column hcolumn hkind quantity hquantity
  have hagrees : AgreesUnlessMiss (evaluator.evaluate table quantities .exact discounted)
      (evaluator.evaluate (table.withRow row) quantities .exact discounted) := by
    apply evaluate_agrees hcolumns
    intro column _
    apply columnValue_agrees hcolumns hresolve
    intro script quantity _ hquantity
    cases script with
    | threePartCurve thresholdKey feeKey overageKey =>
      exact Script.threePartCurve_withRow_agrees (hresolve _ _ hquantity) ..
    | graduated rangeKey rateKey =>
      exact Script.graduated_withRow_agrees (hresolve _ _ hquantity) ..
  exact hagrees.ok h

def scale : Row Float :=
  Row.insert ∅ "range" (.range ⟨200, 300⟩) |>.insert "rate" (.number 2)

theorem evaluate_growth_withRow :
    (RateTable.growth.withRow scale).validate = .ok () ∧
    ∃ result,
      ({} : Evaluator).evaluate .growth (KeyMap.insert ∅ "range" 150) .exact none = .ok result ∧
      ({} : Evaluator).evaluate (RateTable.growth.withRow scale) (KeyMap.insert ∅ "range" 150)
        .exact none = .ok result ∧
      (result.total == 450) = true := by
  refine ⟨eq_ok_of_isOk (by decide +kernel), ?_⟩
  obtain ⟨result, hresult, htotal⟩ := exists_ok_of_any (p := (·.total == 450))
    (x := ({} : Evaluator).evaluate .growth (KeyMap.insert ∅ "range" 150) .exact none)
    (by decide +kernel)
  refine ⟨result, hresult, ?_, htotal⟩
  refine evaluate_withRow_of_below _ ?_ none hresult
  intro column hcolumn hkind quantity hquantity range hrange
  have hbelow : (RateTable.growth.columns.all fun column => column.kind != .metricRange ||
      ((KeyMap.insert ∅ "range" (150 : Float)).find? column.key).all fun quantity =>
        (scale.range? column.key).all fun range => decide (quantity < range.low)) = true := by
    decide +kernel
  have := List.all_eq_true.1 hbelow column hcolumn
  simpa [hkind, hquantity, hrange] using this

end Evaluator

end Tariff
