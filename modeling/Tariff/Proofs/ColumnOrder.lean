import Tariff.Proofs.Outputs
import Tariff.Proofs.PrimaryKey
import Tariff.Proofs.Reprice

/-!
This module contains what the order of columns means for prices: nothing. Columns are found by their
keys and by their roles, which are unique in a usable table, and the outputs are listed by their
keys.
-/

namespace Tariff

variable {α : Type}

namespace RateTable

/--
One table has the columns of another in some order, and the same rows.
-/
structure Reordered (table' table : RateTable α) : Prop where
  columns : table'.columns.Perm table.columns
  rows : table'.rows = table.rows

variable {table table' : RateTable α} {key : String}

theorem column?_eq_some_iff (hkeys : (table.columns.map (·.key)).Nodup) {column : Column} :
    table.column? key = some column ↔ column ∈ table.columns ∧ column.key = key := by
  constructor
  · exact mem_columns_of_column?
  · rintro ⟨hmem, rfl⟩
    exact column?_eq_some_of_mem hkeys hmem

theorem outputWith?_eq_some_iff {role : Role} (hcheck : table.checkRole role = .ok ())
    {column : Column} : table.outputWith? role = some column ↔
      column ∈ table.outputColumns ∧ column.role = some role := by
  constructor
  · intro h
    exact ⟨List.mem_of_find?_eq_some h, by simpa using List.find?_some h⟩
  · rintro ⟨hcolumn, hrole⟩
    exact outputWith?_eq_some hcheck hcolumn hrole

namespace Reordered

variable (h : table'.Reordered table)
include h

theorem symm : table.Reordered table' where
  columns := h.columns.symm
  rows := h.rows.symm

theorem nodup_keys (hkeys : (table.columns.map (·.key)).Nodup) :
    (table'.columns.map (·.key)).Nodup :=
  (h.columns.map _).nodup_iff.2 hkeys

theorem column? (hkeys : (table.columns.map (·.key)).Nodup) (key : String) :
    table'.column? key = table.column? key := by
  apply Option.ext
  intro column
  rw [column?_eq_some_iff hkeys, column?_eq_some_iff (h.nodup_keys hkeys), h.columns.mem_iff]

theorem kind? (hkeys : (table.columns.map (·.key)).Nodup) (key : String) :
    table'.kind? key = table.kind? key := by
  unfold RateTable.kind?
  rw [h.column? hkeys]

theorem mem_rateKeys_iff : key ∈ table'.rateKeys ↔ key ∈ table.rateKeys :=
  ((h.columns.filter _).map _).mem_iff

theorem outputColumns : table'.outputColumns.Perm table.outputColumns :=
  h.columns.filter _

theorem checkRole (role : Role) :
    (table'.checkRole role : Except (ConfigFault α) Unit) = table.checkRole role := by
  unfold RateTable.checkRole
  rw [(h.outputColumns.filter _).length_eq]

theorem outputWith? {role : Role} (hcheck : table.checkRole role = .ok ()) :
    table'.outputWith? role = table.outputWith? role := by
  have hcheck' := hcheck
  rw [← h.checkRole] at hcheck'
  apply Option.ext
  intro column
  rw [outputWith?_eq_some_iff hcheck, outputWith?_eq_some_iff hcheck', h.outputColumns.mem_iff]

variable [Amount α]

theorem resolve (hkeys : (table.columns.map (·.key)).Nodup) (key : String) (quantity : α)
    (mode : Mode) : table'.resolve key quantity mode = table.resolve key quantity mode := by
  unfold RateTable.resolve RateTable.index? RateTable.missFault lookupDomain domainOf?
  rw [h.column? hkeys, h.kind? hkeys, h.rows]

end Reordered

end RateTable

theorem Evaluator.withDiscounted_of_reordered {table table' : RateTable α}
    (h : table'.Reordered table) (discounted : Option α) (bindings : Bindings α) :
    withDiscounted table' discounted bindings = withDiscounted table discounted bindings := by
  cases discounted with
  | none => rfl
  | some rate =>
    apply KeyMap.ext_find?
    intro key
    simp only [find?_withDiscounted, h.mem_rateKeys_iff]

variable [Amount α] {table table' : RateTable α}

section Values

variable (h : table'.Reordered table) (hkeys : (table.columns.map (·.key)).Nodup)
include h hkeys

theorem Script.evaluate_of_reordered (script : Script) (quantity : α) (mode : Mode) (budget : Nat)
    (discounted : Option α) :
    script.evaluate table' quantity mode budget discounted =
      script.evaluate table quantity mode budget discounted := by
  unfold evaluate
  simp only [h.resolve hkeys, field_congr (h.kind? hkeys), charge_congr (h.kind? hkeys), h.rows]

theorem Evaluator.formulaValue_of_reordered (formula : Formula α) (quantities : Quantities α)
    (mode : Mode) (discounted : Option α) :
    formulaValue table' formula quantities mode discounted =
      formulaValue table formula quantities mode discounted := by
  unfold formulaValue
  simp only [h.resolve hkeys, withDiscounted_of_reordered h]

theorem Evaluator.columnResult_of_reordered (evaluator : Evaluator) (column : Column)
    (quantities : Quantities α) (mode : Mode) (discounted : Option α) :
    evaluator.columnResult table' column quantities mode discounted =
      evaluator.columnResult table column quantities mode discounted := by
  apply columnResult_congr
  unfold columnValue
  simp only [Script.evaluate_of_reordered h hkeys, formulaValue_of_reordered h hkeys]

end Values

namespace Evaluator

variable {evaluator : Evaluator} {quantities : Quantities α} {mode : Mode} {discounted : Option α}
  {result : PriceResult α}

theorem totalOf_of_reordered (h : table'.Reordered table)
    (hcheck : (table.checkRole .total : Except (ConfigFault α) Unit) = .ok ())
    (columns : KeyMap α) : totalOf table' columns = totalOf table columns := by
  unfold totalOf
  rw [h.outputWith? hcheck]

theorem total_of_evaluate
    (h : evaluator.evaluate table quantities mode discounted = .ok result) :
    result.total = totalOf table result.columns := by
  unfold evaluate at h
  obtain ⟨columns, _, hresult⟩ := exists_of_bind_eq_ok h
  cases hresult
  rfl

theorem exists_evaluate
    (h : ∀ column ∈ table.outputColumns, ∃ value,
      evaluator.columnResult table column quantities mode discounted = .ok value) :
    ∃ result, evaluator.evaluate table quantities mode discounted = .ok result := by
  apply FaultsIn.exists_ok
  unfold evaluate
  apply FaultsIn.bind
  · apply FaultsIn.foldlM
    intro columns column hcolumn
    obtain ⟨value, hvalue⟩ := h column hcolumn
    rw [hvalue]
    exact .ok _
  · intro columns _
    exact .ok _

theorem evaluate_of_reordered (h : table'.Reordered table)
    (hkeys : (table.columns.map (·.key)).Nodup)
    (hcheck : (table.checkRole .total : Except (ConfigFault α) Unit) = .ok ())
    (hresult : evaluator.evaluate table quantities mode discounted = .ok result) :
    evaluator.evaluate table' quantities mode discounted = .ok result := by
  obtain ⟨hok, hfind⟩ := find?_columns_of_evaluate hkeys hresult
  have hok' : ∀ column ∈ table'.outputColumns, ∃ value,
      evaluator.columnResult table' column quantities mode discounted = .ok value := by
    intro column hcolumn
    rw [evaluator.columnResult_of_reordered h hkeys]
    exact hok column (h.outputColumns.mem_iff.1 hcolumn)
  obtain ⟨result', hresult'⟩ := exists_evaluate hok'
  obtain ⟨_, hfind'⟩ := find?_columns_of_evaluate (h.nodup_keys hkeys) hresult'
  have hcolumns : result'.columns = result.columns := by
    apply KeyMap.ext_find?
    intro key
    apply Option.ext
    intro value
    rw [hfind, hfind']
    simp only [h.outputColumns.mem_iff, evaluator.columnResult_of_reordered h hkeys]
  have htotal : result'.total = result.total := by
    rw [total_of_evaluate hresult', total_of_evaluate hresult, hcolumns,
      totalOf_of_reordered h hcheck]
  cases result
  cases result'
  cases hcolumns
  cases htotal
  exact hresult'

/--
A table has the same prices whatever the order of its columns.
-/
theorem evaluate_reordered_eq_ok_iff (hvalid : table.validate = .ok ()) {columns : List Column}
    (hperm : columns.Perm table.columns) (evaluator : Evaluator) (quantities : Quantities α)
    (mode : Mode) (discounted : Option α) (result : PriceResult α) :
    evaluator.evaluate { columns, rows := table.rows } quantities mode discounted = .ok result ↔
      evaluator.evaluate table quantities mode discounted = .ok result := by
  have h : RateTable.Reordered { columns, rows := table.rows } table := ⟨hperm, rfl⟩
  obtain ⟨hkeys, _, hcheck, _, _⟩ := table.validate_eq_ok_iff.1 hvalid
  have hcheck' := hcheck
  rw [← h.checkRole] at hcheck'
  exact ⟨evaluate_of_reordered h.symm (h.nodup_keys hkeys) hcheck',
    evaluate_of_reordered h hkeys hcheck⟩

def monthly : Quantities Float :=
  KeyMap.insert ∅ "usage" 25 |>.insert "upto" 7

theorem evaluate_quotas_reversed :
    ∃ result, ({} : Evaluator).evaluate .quotas monthly .curve (some 4) = .ok result ∧
      ({} : Evaluator).evaluate
        { columns := RateTable.quotas.columns.reverse, rows := RateTable.quotas.rows } monthly
        .curve (some 4) = .ok result ∧
      (result.columns.entries == [("capped", 2), ("price", 102), ("stepped", 100)]) = true ∧
      (result.total == 102) = true := by
  have hvalid : RateTable.quotas.validate = .ok () := eq_ok_of_isOk (by decide +kernel)
  obtain ⟨result, hresult, hvalues⟩ := exists_ok_of_any
    (p := fun result => result.columns.entries ==
      [("capped", 2), ("price", 102), ("stepped", 100)] && result.total == 102)
    (x := ({} : Evaluator).evaluate .quotas monthly .curve (some 4)) (by decide +kernel)
  rw [Bool.and_eq_true] at hvalues
  refine ⟨result, hresult, ?_, hvalues⟩
  rw [evaluate_reordered_eq_ok_iff hvalid (List.reverse_perm _)]
  exact hresult

end Evaluator

end Tariff
