import Tariff.Proofs.Agreement
import Tariff.Proofs.KeyMap
import Tariff.Proofs.Validate

/-!
This module contains what the result of an evaluation holds: one value for every output column, its
own. A value that a formula computes is a finite number. What a script computes is taken as it is.
-/

namespace Tariff

variable {α : Type} [Amount α]

theorem Formula.Expr.isFinite_of_evaluate {expr : Expr α} {bindings : Bindings α} {value : α}
    (h : expr.evaluate bindings = .ok value) : Amount.isFinite value = true := by
  unfold evaluate at h
  obtain ⟨x, _, hx⟩ := exists_of_bind_eq_ok h
  split at hx
  next hfinite =>
    cases hx
    exact hfinite
  next => cases hx

namespace Evaluator

variable {evaluator : Evaluator} {table : RateTable α} {column : Column}
  {quantities : Quantities α} {mode : Mode} {discounted : Option α} {value : α}

theorem find?_columns_of_evaluate (hkeys : (table.columns.map (·.key)).Nodup)
    {result : PriceResult α}
    (h : evaluator.evaluate table quantities mode discounted = .ok result) :
    (∀ column ∈ table.outputColumns, ∃ value,
      evaluator.columnResult table column quantities mode discounted = .ok value) ∧
    ∀ key value, result.columns.find? key = some value ↔
      ∃ column ∈ table.outputColumns, column.key = key ∧
        evaluator.columnResult table column quantities mode discounted = .ok value := by
  unfold evaluate at h
  obtain ⟨columns, hcolumns, hresult⟩ := exists_of_bind_eq_ok h
  cases hresult
  have hfound := KeyMap.foldlM_insert_eq_ok (RateTable.nodup_keys_outputColumns hkeys) hcolumns
  refine ⟨hfound.1, ?_⟩
  intro key value
  rw [hfound.2]
  simp

theorem columnResult_eq_ok_cases
    (h : evaluator.columnResult table column quantities mode discounted = .ok value) :
    evaluator.columnValue table column quantities mode discounted = .ok value ∨
      value = Amount.zero := by
  unfold columnResult at h
  split at h
  next found hfound =>
    cases h
    exact .inl hfound
  next fault hfault =>
    split at h
    next =>
      cases h
      exact .inr rfl
    next => cases h

theorem columnResult_eq_ok
    (h : evaluator.columnValue table column quantities mode discounted = .ok value) :
    evaluator.columnResult table column quantities mode discounted = .ok value := by
  unfold columnResult
  rw [h]

theorem columnValue_scripted_eq_ok_iff {script : Script} (hscript : column.script = some script) :
    evaluator.columnValue table column quantities mode discounted = .ok value ↔
      ∃ quantity ∈ quantities.find? script.lookupKey,
        script.evaluate table quantity mode evaluator.stepBudget discounted = .ok value := by
  unfold columnValue
  rw [hscript]
  constructor
  · intro h
    obtain ⟨quantity, hquantity, hvalue⟩ := exists_of_bind_eq_ok h
    exact ⟨quantity, required_eq_ok_iff.1 hquantity, hvalue⟩
  · rintro ⟨quantity, hquantity, hvalue⟩
    dsimp only
    rw [required_eq_ok_iff.2 hquantity]
    exact hvalue

section Finite

variable (hzero : Amount.isFinite (Amount.zero : α) = true)
include hzero

theorem isFinite_of_formulaValue {formula : Formula α}
    (h : formulaValue table formula quantities mode discounted = .ok value) :
    Amount.isFinite value = true := by
  unfold formulaValue at h
  split at h
  next => exact Formula.Expr.isFinite_of_evaluate (mapError_eq_ok_iff.1 h)
  next key _ =>
    obtain ⟨quantity, _, h⟩ := exists_of_bind_eq_ok h
    obtain ⟨hit?, _, h⟩ := exists_of_bind_eq_ok h
    cases hit? with
    | none =>
      cases h
      exact hzero
    | some hit => exact Formula.Expr.isFinite_of_evaluate (mapError_eq_ok_iff.1 h)

theorem isFinite_of_columnValue (hscript : column.script = none)
    (h : evaluator.columnValue table column quantities mode discounted = .ok value) :
    Amount.isFinite value = true := by
  unfold columnValue at h
  rw [hscript] at h
  cases hformula : column.formula with
  | none =>
    rw [hformula] at h
    cases h
    exact hzero
  | some text =>
    rw [hformula] at h
    obtain ⟨formula, _, h⟩ := exists_of_bind_eq_ok h
    exact isFinite_of_formulaValue hzero h

theorem isFinite_columnResult_iff
    (h : evaluator.columnResult table column quantities mode discounted = .ok value) :
    Amount.isFinite value = true ↔
      ∀ script ∈ column.script, ∀ quantity ∈ quantities.find? script.lookupKey, ∀ x,
        script.evaluate table quantity mode evaluator.stepBudget discounted = .ok x →
        Amount.isFinite x = true := by
  constructor
  · intro hfinite script hscript quantity hquantity x hx
    have hvalue := (columnValue_scripted_eq_ok_iff hscript).2 ⟨quantity, hquantity, hx⟩
    rw [columnResult_eq_ok hvalue] at h
    cases h
    exact hfinite
  · intro hscripts
    rcases columnResult_eq_ok_cases h with hvalue | rfl
    · cases hscript : column.script with
      | none => exact isFinite_of_columnValue hzero hscript hvalue
      | some script =>
        obtain ⟨quantity, hquantity, hx⟩ := (columnValue_scripted_eq_ok_iff hscript).1 hvalue
        exact hscripts script hscript quantity hquantity value hx
    · exact hzero

end Finite

theorem evaluate_isFinite_iff {table : RateTable Float} (hvalid : table.validate = .ok ())
    {evaluator : Evaluator} {quantities : Quantities Float} {mode : Mode}
    {discounted : Option Float} {result : PriceResult Float}
    (h : evaluator.evaluate table quantities mode discounted = .ok result) :
    (∀ column ∈ table.outputColumns, column.script = none →
      ∃ value, result.columns.find? column.key = some value ∧ Amount.isFinite value = true) ∧
    ((∀ value ∈ result.columns.values, Amount.isFinite value = true) ↔
      ∀ column ∈ table.outputColumns, ∀ script ∈ column.script,
        ∀ quantity ∈ quantities.find? script.lookupKey, ∀ value,
          script.evaluate table quantity mode evaluator.stepBudget discounted = .ok value →
          Amount.isFinite value = true) := by
  have hzero : Amount.isFinite (Amount.zero : Float) = true := by decide +kernel
  have hkeys := (table.validate_eq_ok_iff.1 hvalid).1
  obtain ⟨hok, hfind⟩ := find?_columns_of_evaluate hkeys h
  constructor
  · intro column hcolumn hscript
    obtain ⟨value, hvalue⟩ := hok column hcolumn
    refine ⟨value, (hfind column.key value).2 ⟨column, hcolumn, rfl, hvalue⟩, ?_⟩
    rw [isFinite_columnResult_iff hzero hvalue, hscript]
    simp
  · simp only [KeyMap.mem_values_iff, hfind]
    constructor
    · intro hfinite column hcolumn
      obtain ⟨value, hvalue⟩ := hok column hcolumn
      rw [← isFinite_columnResult_iff hzero hvalue]
      exact hfinite value ⟨column.key, column, hcolumn, rfl, hvalue⟩
    · rintro hscripts value ⟨_, column, hcolumn, _, hvalue⟩
      rw [isFinite_columnResult_iff hzero hvalue]
      exact hscripts column hcolumn

/--
A table with a price that a formula computes and one that a script does, both at the same rate.
-/
def stepped (rate : Float) : RateTable Float where
  columns := RateTable.growth.columns ++ [.scripted "Stepped" "stepped" (.graduated "range" "rate")]
  rows := [Row.insert ∅ "range" (.range ⟨0, 100⟩) |>.insert "rate" (.number rate)]

theorem evaluate_stepped_isFinite :
    ∃ result, ({} : Evaluator).evaluate (stepped 2) (KeyMap.insert ∅ "range" 100) .exact none =
        .ok result ∧
      result.columns.keys = ["price", "stepped"] ∧
      ∀ value ∈ result.columns.values, Amount.isFinite value = true := by
  have hvalid : (stepped 2).validate = .ok () := eq_ok_of_isOk (by decide +kernel)
  obtain ⟨result, hresult, hkeys⟩ := exists_ok_of_any
    (p := (·.columns.keys == ["price", "stepped"]))
    (x := ({} : Evaluator).evaluate (stepped 2) (KeyMap.insert ∅ "range" 100) .exact none)
    (by decide +kernel)
  refine ⟨result, hresult, beq_iff_eq.1 hkeys, (evaluate_isFinite_iff hvalid hresult).2.2 ?_⟩
  have hscripts : ((stepped 2).outputColumns.all fun column => column.script.all fun script =>
      ((KeyMap.insert ∅ "range" (100 : Float)).find? script.lookupKey).all fun quantity =>
        (script.evaluate (stepped 2) quantity .exact 10000 none).toOption.all Amount.isFinite) =
      true := by
    decide +kernel
  intro column hcolumn script hscript quantity hquantity value hvalue
  have := List.all_eq_true.1 hscripts column hcolumn
  rw [Option.mem_def.1 hscript, Option.all_some, Option.mem_def.1 hquantity, Option.all_some,
    hvalue] at this
  exact this

/--
At a rate near the end of the range of numbers, the formula has no value and counts as zero, while
the script has an infinite one.
-/
theorem evaluate_stepped_not_isFinite :
    (stepped 1e308).validate = .ok () ∧
    ∃ result, ({} : Evaluator).evaluate (stepped 1e308) (KeyMap.insert ∅ "range" 100) .exact none =
        .ok result ∧
      ∃ value ∈ result.columns.values, Amount.isFinite value = false := by
  refine ⟨eq_ok_of_isOk (by decide +kernel), ?_⟩
  obtain ⟨result, hresult, hvalues⟩ := exists_ok_of_any
    (p := (·.columns.values.any (!Amount.isFinite ·)))
    (x := ({} : Evaluator).evaluate (stepped 1e308) (KeyMap.insert ∅ "range" 100) .exact none)
    (by decide +kernel)
  exact ⟨result, hresult, by simpa using hvalues⟩

end Evaluator

end Tariff
