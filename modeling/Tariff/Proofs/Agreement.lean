import Tariff.Evaluate
import Tariff.Proofs.Lookup

/-!
This module contains when two evaluations of tables with the same columns have the same outcome. It
is enough that the output columns have, one by one, and for these that lookups and scripts have.
-/

namespace Tariff

variable {α : Type}

theorem RateTable.rateKeys_congr {table table' : RateTable α}
    (hcolumns : table'.columns = table.columns) : table'.rateKeys = table.rateKeys := by
  unfold rateKeys
  rw [hcolumns]

theorem RateTable.outputColumns_congr {table table' : RateTable α}
    (hcolumns : table'.columns = table.columns) : table'.outputColumns = table.outputColumns := by
  unfold outputColumns
  rw [hcolumns]

theorem RateTable.kind?_congr {table table' : RateTable α}
    (hcolumns : table'.columns = table.columns) (key : String) :
    table'.kind? key = table.kind? key := by
  unfold kind? column?
  rw [hcolumns]

theorem Script.field_congr {table table' : RateTable α}
    (hkind : ∀ key, table'.kind? key = table.kind? key) (discounted : Option α) (index : Nat)
    (row : Row α) (key : String) :
    field table' discounted index row key = field table discounted index row key := by
  unfold field
  rw [hkind]

theorem Script.charge_congr [Amount α] {table table' : RateTable α}
    (hkind : ∀ key, table'.kind? key = table.kind? key) (discounted : Option α)
    (rangeKey rateKey : String) (quantity : α) (limit left index : Nat) (start : Option α)
    (total : α) (rows : List (Row α)) :
    charge table' discounted rangeKey rateKey quantity limit left index start total rows =
      charge table discounted rangeKey rateKey quantity limit left index start total rows := by
  induction rows generalizing left index start total with
  | nil => rfl
  | cons row rows ih =>
    unfold charge band
    simp only [hkind, field_congr hkind, ih]

namespace Evaluator

theorem withDiscounted_congr {table table' : RateTable α}
    (hcolumns : table'.columns = table.columns) (discounted : Option α) (bindings : Bindings α) :
    withDiscounted table' discounted bindings = withDiscounted table discounted bindings := by
  unfold withDiscounted
  rw [RateTable.rateKeys_congr hcolumns]

theorem foldlM_congr {ε β γ : Type} {f g : γ → β → Except ε γ} {xs : List β}
    (h : ∀ acc, ∀ x ∈ xs, f acc x = g acc x) (acc : γ) : xs.foldlM f acc = xs.foldlM g acc := by
  induction xs generalizing acc with
  | nil => rfl
  | cons x xs ih =>
    rw [List.foldlM_cons, List.foldlM_cons, h acc x List.mem_cons_self]
    congr 1
    funext next
    exact ih (fun acc y hy => h acc y (List.mem_cons_of_mem _ hy)) next

theorem required_eq_ok_iff {quantities : Quantities α} {key : String} {quantity : α} :
    required quantities key = .ok quantity ↔ quantities.find? key = some quantity := by
  unfold required
  split
  next found hfound => simp [hfound]
  next hfound => simp [hfound]

variable [Amount α] {evaluator : Evaluator} {table table' : RateTable α} {column : Column}
  {quantities : Quantities α} {mode mode' : Mode} {discounted discounted' : Option α}

theorem totalOf_congr (hcolumns : table'.columns = table.columns) (columns : KeyMap α) :
    totalOf table' columns = totalOf table columns := by
  unfold totalOf RateTable.outputWith?
  rw [RateTable.outputColumns_congr hcolumns]

theorem columnResult_congr
    (h : evaluator.columnValue table' column quantities mode' discounted' =
      evaluator.columnValue table column quantities mode discounted) :
    evaluator.columnResult table' column quantities mode' discounted' =
      evaluator.columnResult table column quantities mode discounted := by
  unfold columnResult
  rw [h]

theorem evaluate_congr (hcolumns : table'.columns = table.columns)
    (h : ∀ column ∈ table.outputColumns,
      evaluator.columnValue table' column quantities mode' discounted' =
        evaluator.columnValue table column quantities mode discounted) :
    evaluator.evaluate table' quantities mode' discounted' =
      evaluator.evaluate table quantities mode discounted := by
  unfold evaluate
  rw [RateTable.outputColumns_congr hcolumns]
  simp only [totalOf_congr hcolumns]
  congr 1
  apply foldlM_congr
  intro columns column hcolumn
  rw [columnResult_congr (h column hcolumn)]

theorem columnResult_eq_miss {fault : Fault α} (hmiss : fault.isRangeMiss = true)
    (h : evaluator.columnValue table column quantities mode discounted = .error fault) :
    evaluator.columnResult table column quantities mode discounted = .error fault := by
  have hdegrades : evaluator.degrades column fault = false := by
    unfold degrades
    cases fault with
    | rangeExceeded => simp [Fault.isRangeMiss, Fault.isDefect]
    | rangeGap => simp [Fault.isRangeMiss, Fault.isDefect]
    | _ => cases hmiss
  unfold columnResult
  rw [h]
  simp [hdegrades]

theorem columnResult_agrees
    (h : AgreesUnlessMiss (evaluator.columnValue table column quantities mode discounted)
      (evaluator.columnValue table' column quantities mode' discounted')) :
    AgreesUnlessMiss (evaluator.columnResult table column quantities mode discounted)
      (evaluator.columnResult table' column quantities mode' discounted') := by
  rcases h with ⟨fault, hfault, hmiss⟩ | heq
  · rw [columnResult_eq_miss hmiss hfault]
    exact .miss hmiss _
  · exact .inr (columnResult_congr heq)

theorem evaluate_agrees (hcolumns : table'.columns = table.columns)
    (h : ∀ column ∈ table.outputColumns,
      AgreesUnlessMiss (evaluator.columnValue table column quantities mode discounted)
        (evaluator.columnValue table' column quantities mode' discounted')) :
    AgreesUnlessMiss (evaluator.evaluate table quantities mode discounted)
      (evaluator.evaluate table' quantities mode' discounted') := by
  unfold evaluate
  rw [RateTable.outputColumns_congr hcolumns]
  apply AgreesUnlessMiss.bind
  · apply AgreesUnlessMiss.foldlM
    intro columns column hcolumn
    apply AgreesUnlessMiss.bind (columnResult_agrees (h column hcolumn))
    intro value _
    exact .refl _
  · intro columns _
    rw [totalOf_congr hcolumns]
    exact .refl _

theorem formulaValue_agrees (hcolumns : table'.columns = table.columns)
    (hresolve : ∀ key quantity, quantities.find? key = some quantity →
      AgreesUnlessMiss (table.resolve key quantity mode) (table'.resolve key quantity mode'))
    (formula : Formula α) :
    AgreesUnlessMiss (formulaValue table formula quantities mode discounted)
      (formulaValue table' formula quantities mode' discounted) := by
  unfold formulaValue
  simp only [withDiscounted_congr hcolumns]
  cases formula.key with
  | none => exact .refl _
  | some key =>
    apply AgreesUnlessMiss.bind (.refl _)
    intro quantity hquantity
    apply AgreesUnlessMiss.bind (hresolve key quantity (required_eq_ok_iff.1 hquantity))
    intro hit? _
    exact .refl _

theorem columnValue_agrees (hcolumns : table'.columns = table.columns)
    (hresolve : ∀ key quantity, quantities.find? key = some quantity →
      AgreesUnlessMiss (table.resolve key quantity mode) (table'.resolve key quantity mode'))
    (hscript : ∀ script quantity, column.script = some script →
      quantities.find? script.lookupKey = some quantity →
      AgreesUnlessMiss (script.evaluate table quantity mode evaluator.stepBudget discounted)
        (script.evaluate table' quantity mode' evaluator.stepBudget discounted)) :
    AgreesUnlessMiss (evaluator.columnValue table column quantities mode discounted)
      (evaluator.columnValue table' column quantities mode' discounted) := by
  unfold columnValue
  cases hcolumn : column.script with
  | some script =>
    apply AgreesUnlessMiss.bind (.refl _)
    intro quantity hquantity
    exact hscript script quantity hcolumn (required_eq_ok_iff.1 hquantity)
  | none =>
    cases column.formula with
    | none => exact .refl _
    | some text =>
      apply AgreesUnlessMiss.bind (.refl _)
      intro formula _
      exact formulaValue_agrees hcolumns hresolve formula

end Evaluator

end Tariff
