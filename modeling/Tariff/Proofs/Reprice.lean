import Tariff.Proofs.Agreement
import Tariff.Proofs.KeyMap
import Tariff.Proofs.Validate

/-!
This module contains what a discounted unit price means: it stands for the table in which every cell
of a rate column holds that price.
-/

namespace Tariff

variable {α : Type}

namespace Row

/--
The row with a number put into the cells of some columns, whatever they hold.
-/
def withRates (keys : List String) (rate : α) (row : Row α) : Row α where
  cells := keys.foldl (fun cells key => cells.insert key (.number rate)) row.cells

theorem find?_cells_withRates (keys : List String) (rate : α) (row : Row α) (key : String) :
    (row.withRates keys rate).cells.find? key =
      if key ∈ keys then some (.number rate) else row.cells.find? key := by
  unfold withRates
  rw [KeyMap.find?_foldl_insert]

theorem number?_withRates (keys : List String) (rate : α) (row : Row α) (key : String) :
    (row.withRates keys rate).number? key =
      if key ∈ keys then some rate else row.number? key := by
  unfold number?
  rw [find?_cells_withRates]
  by_cases h : key ∈ keys
  · simp [h]
  · simp [h]

theorem range?_withRates {keys : List String} {key : String} (h : key ∉ keys) (rate : α)
    (row : Row α) : (row.withRates keys rate).range? key = row.range? key := by
  unfold range?
  rw [find?_cells_withRates, if_neg h]

end Row

def Hit.withRates (keys : List String) (rate : α) (hit : Hit α) : Hit α where
  index := hit.index
  row := hit.row.withRates keys rate

namespace RateTable

def withRates (table : RateTable α) (rate : α) : RateTable α where
  columns := table.columns
  rows := table.rows.map (Row.withRates table.rateKeys rate)

theorem kind?_eq_rate_iff {table : RateTable α} (hkeys : (table.columns.map (·.key)).Nodup)
    (key : String) : table.kind? key = some .rate ↔ key ∈ table.rateKeys := by
  unfold kind? rateKeys
  simp only [Option.map_eq_some_iff, List.mem_map, List.mem_filter, beq_iff_eq]
  constructor
  · rintro ⟨column, hcolumn, hkind⟩
    obtain ⟨hmem, hkey⟩ := mem_columns_of_column? hcolumn
    exact ⟨column, ⟨hmem, hkind⟩, hkey⟩
  · rintro ⟨column, ⟨hmem, hkind⟩, rfl⟩
    exact ⟨column, column?_eq_some_of_mem hkeys hmem, hkind⟩

theorem not_mem_rateKeys_of_isLookup {table : RateTable α}
    (hkeys : (table.columns.map (·.key)).Nodup) {key : String} {column : Column}
    (hcolumn : table.column? key = some column) (hkind : column.kind.isLookup = true) :
    key ∉ table.rateKeys := by
  rw [← kind?_eq_rate_iff hkeys]
  unfold kind?
  rw [hcolumn]
  rintro hrate
  cases column.kind <;> simp_all [ColumnKind.isLookup]

theorem filterMap_range?_withRates {table : RateTable α} {key : String}
    (h : key ∉ table.rateKeys) (rate : α) :
    (table.withRates rate).rows.filterMap (·.range? key) = table.rows.filterMap (·.range? key) := by
  rw [withRates, List.filterMap_map]
  congr 1
  funext row
  exact Row.range?_withRates h rate row

theorem filterMap_number?_withRates {table : RateTable α} {key : String}
    (h : key ∉ table.rateKeys) (rate : α) :
    (table.withRates rate).rows.filterMap (·.number? key) =
      table.rows.filterMap (·.number? key) := by
  rw [withRates, List.filterMap_map]
  congr 1
  funext row
  rw [Function.comp_apply, Row.number?_withRates, if_neg h]

variable [Amount α]

theorem lookupDomain_withRates {table : RateTable α} {key : String} (h : key ∉ table.rateKeys)
    (rate : α) : (table.withRates rate).lookupDomain key = table.lookupDomain key := by
  unfold lookupDomain domainOf?
  rw [filterMap_range?_withRates h, filterMap_number?_withRates h]
  rfl

theorem index?_withRates {table : RateTable α} {key : String} (h : key ∉ table.rateKeys)
    (rate : α) (kind : ColumnKind) (domain : Range α) (quantity : α) :
    (table.withRates rate).index? kind key domain quantity =
      table.index? kind key domain quantity := by
  have hcovers : ∀ row : Row α, covers key quantity (row.withRates table.rateKeys rate) =
      covers key quantity row := by
    intro row
    unfold covers
    rw [Row.range?_withRates h]
  unfold index? thresholdIndex? rangeIndex?
  simp [withRates, Function.comp_def, Row.number?_withRates, h, hcovers, Option.any_map]

theorem hit?_withRates {table : RateTable α} {key : String} (h : key ∉ table.rateKeys)
    (rate : α) (kind : ColumnKind) (quantity : α) :
    (table.withRates rate).hit? kind key quantity =
      (table.hit? kind key quantity).map (Hit.withRates table.rateKeys rate) := by
  unfold hit?
  rw [lookupDomain_withRates h, index?_withRates h]
  cases table.index? kind key (table.lookupDomain key) quantity with
  | none => rfl
  | some index =>
    cases hrow : table.rows[index]? with
    | none => simp [withRates, hrow]
    | some row => simp [withRates, hrow, Hit.withRates]

theorem missFault_withRates {table : RateTable α} {key : String} (h : key ∉ table.rateKeys)
    (rate : α) (kind : ColumnKind) (domain : Range α) (quantity : α) :
    (table.withRates rate).missFault kind key domain quantity =
      table.missFault kind key domain quantity := by
  unfold missFault gapAround
  rw [filterMap_range?_withRates h]

theorem resolve_withRates {table : RateTable α} (hkeys : (table.columns.map (·.key)).Nodup)
    (rate : α) (key : String) (quantity : α) (mode : Mode) :
    (table.withRates rate).resolve key quantity mode =
      (table.resolve key quantity mode).map (Option.map (Hit.withRates table.rateKeys rate)) := by
  cases hlookup : (table.column? key).filter (·.kind.isLookup) with
  | none =>
    have hlookup' : ((table.withRates rate).column? key).filter (·.kind.isLookup) = none := hlookup
    rw [resolve_eq_notLookup hlookup, resolve_eq_notLookup hlookup']
    rfl
  | some column =>
    have hlookup' : ((table.withRates rate).column? key).filter (·.kind.isLookup) = some column :=
      hlookup
    obtain ⟨hcolumn, hkind⟩ := Option.filter_eq_some_iff.1 hlookup
    have hkey := not_mem_rateKeys_of_isLookup hkeys hcolumn hkind
    have hhit' := hit?_withRates hkey rate column.kind quantity
    cases hhit : table.hit? column.kind key quantity with
    | some hit =>
      rw [hhit] at hhit'
      rw [resolve_eq_hit hlookup hhit, resolve_eq_hit hlookup' hhit']
      rfl
    | none =>
      rw [hhit] at hhit'
      cases mode with
      | curve =>
        rw [resolve_curve_eq_none hlookup hhit, resolve_curve_eq_none hlookup' hhit']
        rfl
      | exact =>
        rw [resolve_exact_eq_miss hlookup hhit, resolve_exact_eq_miss hlookup' hhit']
        rw [lookupDomain_withRates hkey, missFault_withRates hkey]
        rfl

end RateTable

namespace Script

theorem field_withRates {table : RateTable α} (hkeys : (table.columns.map (·.key)).Nodup)
    (rate : α) (index : Nat) (row : Row α) (key : String) :
    field (table.withRates rate) none index (row.withRates table.rateKeys rate) key =
      field table (some rate) index row key := by
  unfold field
  rw [Row.number?_withRates]
  by_cases hrate : key ∈ table.rateKeys
  · simp [(RateTable.kind?_eq_rate_iff hkeys key).2 hrate, hrate]
  · rw [if_neg hrate]
    rw [← RateTable.kind?_eq_rate_iff hkeys] at hrate
    cases hkind : table.kind? key with
    | none => rfl
    | some kind =>
      cases kind with
      | rate => exact (hrate hkind).elim
      | _ => rfl

variable [Amount α]

theorem band_withRates {table : RateTable α} (hkeys : (table.columns.map (·.key)).Nodup)
    (rate : α) (rangeKey : String) (start : Option α) (index : Nat) (row : Row α) :
    band (table.withRates rate) none rangeKey start index (row.withRates table.rateKeys rate) =
      band table (some rate) rangeKey start index row := by
  have hkind : (table.withRates rate).kind? rangeKey = table.kind? rangeKey := rfl
  unfold band
  rw [hkind, field_withRates hkeys]
  cases hrange : table.kind? rangeKey with
  | none => rfl
  | some kind =>
    cases kind with
    | metricRange =>
      have hkey : rangeKey ∉ table.rateKeys := by
        rw [← RateTable.kind?_eq_rate_iff hkeys, hrange]
        simp
      rw [Row.range?_withRates hkey]
    | _ => rfl

theorem charge_withRates {table : RateTable α} (hkeys : (table.columns.map (·.key)).Nodup)
    (rate : α) (rangeKey rateKey : String) (quantity : α) (limit left index : Nat)
    (start : Option α) (total : α) (rows : List (Row α)) :
    charge (table.withRates rate) none rangeKey rateKey quantity limit left index start total
        (rows.map (Row.withRates table.rateKeys rate)) =
      charge table (some rate) rangeKey rateKey quantity limit left index start total rows := by
  induction rows generalizing left index start total with
  | nil => rfl
  | cons row rows ih =>
    unfold charge
    simp only [List.map_cons, band_withRates hkeys, field_withRates hkeys, ih]

theorem evaluate_withRates {table : RateTable α} (hkeys : (table.columns.map (·.key)).Nodup)
    (rate : α) (script : Script) (quantity : α) (mode : Mode) (budget : Nat) :
    script.evaluate (table.withRates rate) quantity mode budget none =
      script.evaluate table quantity mode budget (some rate) := by
  unfold evaluate
  cases script with
  | threePartCurve thresholdKey feeKey overageKey =>
    simp only [RateTable.resolve_withRates hkeys]
    cases table.resolve thresholdKey quantity mode with
    | error fault => rfl
    | ok hit? =>
      cases hit? with
      | none => rfl
      | some hit =>
        obtain ⟨index, row⟩ := hit
        have hrows : ∀ i : Nat, (table.withRates rate).rows[i]? =
            table.rows[i]?.map (Row.withRates table.rateKeys rate) := fun i => List.getElem?_map
        simp only [Except.map, Option.map, Hit.withRates, bind, Except.bind, field_withRates hkeys]
        cases mode with
        | exact => rfl
        | curve =>
          cases index with
          | zero => rfl
          | succ index =>
            dsimp only
            rw [hrows]
            cases table.rows[index]? with
            | none => rfl
            | some previous => simp only [Option.map_some, field_withRates hkeys]
  | graduated rangeKey rateKey =>
    simp only [RateTable.resolve_withRates hkeys]
    cases table.resolve rangeKey quantity mode with
    | error fault => rfl
    | ok hit? =>
      cases hit? with
      | none => rfl
      | some hit =>
        have hrows : (table.withRates rate).rows.take (hit.index + 1) =
            (table.rows.take (hit.index + 1)).map (Row.withRates table.rateKeys rate) :=
          List.map_take.symm
        show charge (table.withRates rate) none rangeKey rateKey quantity budget budget 0 none
          Amount.zero ((table.withRates rate).rows.take (hit.index + 1)) = _
        rw [hrows, charge_withRates hkeys]
        rfl

end Script

namespace Evaluator

theorem find?_withDiscounted (table : RateTable α) (rate : α) (bindings : Bindings α)
    (key : String) :
    (withDiscounted table (some rate) bindings).find? key =
      if key ∈ table.rateKeys then some rate else bindings.find? key := by
  unfold withDiscounted
  rw [KeyMap.find?_foldl_insert]

theorem bindings_withRates {table : RateTable α} (rate : α) (row : Row α)
    (quantities : Quantities α) {key : String} (hkey : key ∉ table.rateKeys) (quantity : α) :
    ((row.withRates table.rateKeys rate).numbers.orElse quantities).insert key quantity =
      withDiscounted table (some rate) ((row.numbers.orElse quantities).insert key quantity) := by
  apply KeyMap.ext_find?
  intro name
  rw [find?_withDiscounted]
  simp only [KeyMap.find?_insert, KeyMap.find?_orElse, Row.find?_numbers, Row.number?_withRates]
  -- The looked up quantity is inserted last in the one case and before the price in the other.
  by_cases hname : name ∈ table.rateKeys
  · have hne : name ≠ key := by
      rintro rfl
      exact hkey hname
    simp [hname, hne]
  · simp [hname]

variable [Amount α]

theorem formulaValue_withRates {table : RateTable α} (hkeys : (table.columns.map (·.key)).Nodup)
    (rate : α) {formula : Formula α} (hformula : formula.key ≠ none) (quantities : Quantities α)
    (mode : Mode) :
    formulaValue (table.withRates rate) formula quantities mode none =
      formulaValue table formula quantities mode (some rate) := by
  unfold formulaValue
  cases hkey : formula.key with
  | none => exact (hformula hkey).elim
  | some key =>
    apply bind_congr
    intro quantity
    rw [RateTable.resolve_withRates hkeys]
    cases hresolve : table.resolve key quantity mode with
    | error fault => rfl
    | ok hit? =>
      cases hit? with
      | none => rfl
      | some hit =>
        obtain ⟨column, hcolumn, hkind⟩ := RateTable.exists_column_of_resolve_eq_ok hresolve
        have hrate := RateTable.not_mem_rateKeys_of_isLookup hkeys hcolumn hkind
        have hbindings := bindings_withRates rate hit.row quantities hrate quantity
        show (formula.expr.evaluate
          (((hit.row.withRates table.rateKeys rate).numbers.orElse quantities).insert key
            quantity)).mapError Fault.expression = _
        rw [hbindings]
        rfl

theorem columnValue_withRates (evaluator : Evaluator) {table : RateTable α}
    (hkeys : (table.columns.map (·.key)).Nodup) (rate : α) {column : Column}
    (hcolumn : column.script = none → ∀ text, column.formula = some text →
      ∀ formula : Formula α, Formula.parse text = .ok formula → formula.key ≠ none)
    (quantities : Quantities α) (mode : Mode) :
    evaluator.columnValue (table.withRates rate) column quantities mode none =
      evaluator.columnValue table column quantities mode (some rate) := by
  unfold columnValue
  cases hscript : column.script with
  | some script => simp only [Script.evaluate_withRates hkeys]
  | none =>
    cases htext : column.formula with
    | none => rfl
    | some text =>
      dsimp only
      cases hparse : (Formula.parse text : Except (Formula.ParseError α) (Formula α)) with
      | error error => rfl
      | ok formula =>
        have hformula := hcolumn hscript text htext formula hparse
        exact formulaValue_withRates hkeys rate hformula quantities mode

theorem evaluate_discounted_eq_withRates (evaluator : Evaluator) {table : RateTable α}
    (hvalid : table.validate = .ok ())
    (hformulas : ∀ column ∈ table.outputColumns, column.script = none →
      ∀ text, column.formula = some text →
      ∀ formula : Formula α, Formula.parse text = .ok formula → formula.key ≠ none)
    (rate : α) (quantities : Quantities α) (mode : Mode) :
    evaluator.evaluate table quantities mode (some rate) =
      evaluator.evaluate (table.withRates rate) quantities mode := by
  have hkeys := ((RateTable.validate_eq_ok_iff table).1 hvalid).1
  have hcolumns : (table.withRates rate).columns = table.columns := rfl
  symm
  apply evaluate_congr hcolumns
  intro column hcolumn
  exact columnValue_withRates evaluator hkeys rate (hformulas column hcolumn) quantities mode

def unrated : RateTable Float where
  columns := RateTable.growth.columns
  rows := [
    Row.insert ∅ "range" (.range ⟨0, 100⟩) |>.insert "rate" (.text "on request"),
    Row.insert ∅ "range" (.range ⟨101, 200⟩)]

theorem evaluate_unrated_eq_withRates :
    ({} : Evaluator).evaluate unrated (KeyMap.insert ∅ "range" 150) .exact (some 4) =
      ({} : Evaluator).evaluate (unrated.withRates 4) (KeyMap.insert ∅ "range" 150) .exact ∧
    ∃ result,
      ({} : Evaluator).evaluate unrated (KeyMap.insert ∅ "range" 150) .exact (some 4) =
        .ok result ∧
      (result.total == 600) = true := by
  constructor
  · apply evaluate_discounted_eq_withRates
    · exact eq_ok_of_isOk (by decide +kernel)
    · intro column hcolumn _ text htext formula hparse
      have hlookup : (unrated.outputColumns.all fun column => column.formula.all fun text =>
          (Formula.parse text : Except (Formula.ParseError Float) _).toOption.all (·.key.isSome)) =
          true := by
        decide +kernel
      have := List.all_eq_true.1 hlookup column hcolumn
      rw [htext] at this
      simp only [Option.all_some, hparse, Except.toOption] at this
      exact Option.isSome_iff_ne_none.1 this
  · exact exists_ok_of_any (by decide +kernel)

end Evaluator

end Tariff
