import Tariff.Proofs.Agreement
import Tariff.Proofs.Outputs

/-!
This module contains how strict evaluation compares with lenient evaluation of the same table. A
column with a script has the same outcome in both, and a column without one can differ only by
being taken for zero. So a strict result is a lenient result that hides no defect.
-/

namespace Tariff

variable {α : Type}

theorem Fault.isRangeMiss_eq_false_of_isDefect {fault : Fault α} (h : fault.isDefect = true) :
    fault.isRangeMiss = false := by
  cases fault with
  | rangeExceeded => cases h
  | rangeGap => cases h
  | _ => rfl

theorem foldlM_eq_ok_iff_and {ε β γ : Type} {f g : γ → β → Except ε γ} {p : β → Prop}
    (xs : List β) (h : ∀ acc, ∀ x ∈ xs, ∀ next, f acc x = .ok next ↔ g acc x = .ok next ∧ p x)
    (acc result : γ) :
    xs.foldlM f acc = .ok result ↔ xs.foldlM g acc = .ok result ∧ ∀ x ∈ xs, p x := by
  induction xs generalizing acc with
  | nil => simp
  | cons x xs ih =>
    have ih := ih fun acc y hy => h acc y (List.mem_cons_of_mem _ hy)
    rw [List.foldlM_cons, List.foldlM_cons, List.forall_mem_cons]
    constructor
    · intro hrun
      obtain ⟨next, hnext, hrest⟩ := exists_of_bind_eq_ok hrun
      obtain ⟨hnext, hx⟩ := (h acc x List.mem_cons_self next).1 hnext
      obtain ⟨hrest, hxs⟩ := (ih next).1 hrest
      rw [hnext]
      exact ⟨hrest, hx, hxs⟩
    · rintro ⟨hrun, hx, hxs⟩
      obtain ⟨next, hnext, hrest⟩ := exists_of_bind_eq_ok hrun
      rw [(h acc x List.mem_cons_self next).2 ⟨hnext, hx⟩]
      exact (ih next).2 ⟨hrest, hxs⟩

namespace Evaluator

def strictly (budget : Nat) : Evaluator where
  stepBudget := budget
  strict := true

def leniently (budget : Nat) : Evaluator where
  stepBudget := budget
  strict := false

theorem degrades_of_script {column : Column} (hscript : column.script.isSome = true)
    (evaluator : Evaluator) (fault : Fault α) :
    evaluator.degrades column fault = !fault.isRangeMiss := by
  unfold degrades
  rw [hscript, Bool.true_and]
  cases hdefect : fault.isDefect with
  | false => simp
  | true => simp [Fault.isRangeMiss_eq_false_of_isDefect hdefect]

variable [Amount α] {budget : Nat} {table : RateTable α} {column : Column}
  {quantities : Quantities α} {mode : Mode} {discounted : Option α}

theorem columnValue_strictly :
    (strictly budget).columnValue table column quantities mode discounted =
      (leniently budget).columnValue table column quantities mode discounted :=
  rfl

theorem columnResult_strictly_of_script (hscript : column.script.isSome = true) :
    (strictly budget).columnResult table column quantities mode discounted =
      (leniently budget).columnResult table column quantities mode discounted := by
  unfold columnResult
  rw [columnValue_strictly]
  simp only [degrades_of_script hscript]

theorem columnResult_strictly_of_formula (hscript : column.script = none) :
    (strictly budget).columnResult table column quantities mode discounted =
      (leniently budget).columnValue table column quantities mode discounted := by
  unfold columnResult
  rw [columnValue_strictly]
  split
  next value hvalue => rw [hvalue]
  next fault hfault => simp [degrades, hscript, strictly, hfault]

theorem columnResult_strictly_eq_ok_iff {value : α} :
    (strictly budget).columnResult table column quantities mode discounted = .ok value ↔
      (leniently budget).columnResult table column quantities mode discounted = .ok value ∧
      (column.script = none → ∃ computed,
        (leniently budget).columnValue table column quantities mode discounted = .ok computed) := by
  cases hscript : column.script with
  | some script =>
    rw [columnResult_strictly_of_script (by rw [hscript]; rfl)]
    simp
  | none =>
    rw [columnResult_strictly_of_formula hscript]
    constructor
    · intro hvalue
      exact ⟨columnResult_eq_ok hvalue, fun _ => ⟨value, hvalue⟩⟩
    · rintro ⟨hresult, hcomputed⟩
      obtain ⟨computed, hcomputed⟩ := hcomputed rfl
      rw [columnResult_eq_ok hcomputed] at hresult
      rw [hcomputed, hresult]

theorem evaluate_strictly_eq_ok_iff {result : PriceResult α} :
    (strictly budget).evaluate table quantities mode discounted = .ok result ↔
      (leniently budget).evaluate table quantities mode discounted = .ok result ∧
      ∀ column ∈ table.outputColumns, column.script = none → ∃ value,
        (leniently budget).columnValue table column quantities mode discounted = .ok value := by
  unfold evaluate
  have hcolumns := foldlM_eq_ok_iff_and table.outputColumns
    (f := fun (columns : KeyMap α) column => do
      let value ← (strictly budget).columnResult table column quantities mode discounted
      return columns.insert column.key value)
    (g := fun (columns : KeyMap α) column => do
      let value ← (leniently budget).columnResult table column quantities mode discounted
      return columns.insert column.key value)
    (p := fun column => column.script = none → ∃ value,
      (leniently budget).columnValue table column quantities mode discounted = .ok value) ?_ ∅
  · constructor
    · intro hrun
      obtain ⟨columns, hfold, hresult⟩ := exists_of_bind_eq_ok hrun
      obtain ⟨hfold, hvalues⟩ := (hcolumns columns).1 hfold
      rw [hfold]
      exact ⟨hresult, hvalues⟩
    · rintro ⟨hrun, hvalues⟩
      obtain ⟨columns, hfold, hresult⟩ := exists_of_bind_eq_ok hrun
      rw [(hcolumns columns).2 ⟨hfold, hvalues⟩]
      exact hresult
  · intro columns column _ next
    constructor
    · intro hstep
      obtain ⟨value, hvalue, hnext⟩ := exists_of_bind_eq_ok hstep
      obtain ⟨hvalue, hcomputed⟩ := columnResult_strictly_eq_ok_iff.1 hvalue
      rw [hvalue]
      exact ⟨hnext, hcomputed⟩
    · rintro ⟨hstep, hcomputed⟩
      obtain ⟨value, hvalue, hnext⟩ := exists_of_bind_eq_ok hstep
      rw [columnResult_strictly_eq_ok_iff.2 ⟨hvalue, hcomputed⟩]
      exact hnext

theorem evaluate_strictly_of_scripts
    (h : ∀ column ∈ table.outputColumns, ∀ fault,
      (leniently budget).columnValue table column quantities mode discounted = .error fault →
      column.script.isSome = true) :
    (strictly budget).evaluate table quantities mode discounted =
      (leniently budget).evaluate table quantities mode discounted := by
  unfold evaluate
  congr 1
  apply foldlM_congr
  intro columns column hcolumn
  congr 1
  cases hvalue : (leniently budget).columnValue table column quantities mode discounted with
  | ok value =>
    rw [columnResult_eq_ok hvalue]
    exact columnResult_eq_ok (columnValue_strictly.trans hvalue)
  | error fault => exact columnResult_strictly_of_script (h column hcolumn fault hvalue)

theorem evaluate_strictly_iff_leniently (budget : Nat) (table : RateTable α)
    (quantities : Quantities α) (mode : Mode) (discounted : Option α) :
    (∀ result,
      (strictly budget).evaluate table quantities mode discounted = .ok result ↔
        (leniently budget).evaluate table quantities mode discounted = .ok result ∧
        ∀ column ∈ table.outputColumns, column.script = none → ∃ value,
          (leniently budget).columnValue table column quantities mode discounted = .ok value) ∧
    (∀ fault, (leniently budget).evaluate table quantities mode discounted = .error fault →
      ∃ fault', (strictly budget).evaluate table quantities mode discounted = .error fault') ∧
    ((∀ column ∈ table.outputColumns, ∀ fault,
        (leniently budget).columnValue table column quantities mode discounted = .error fault →
        column.script.isSome = true) →
      (strictly budget).evaluate table quantities mode discounted =
        (leniently budget).evaluate table quantities mode discounted) := by
  refine ⟨fun _ => evaluate_strictly_eq_ok_iff, ?_, evaluate_strictly_of_scripts⟩
  intro fault hfault
  cases hstrict : (strictly budget).evaluate table quantities mode discounted with
  | error fault' => exact ⟨fault', rfl⟩
  | ok result =>
    rw [(evaluate_strictly_eq_ok_iff.1 hstrict).1] at hfault
    cases hfault

/--
A script that has used up its steps counts as zero also in strict evaluation, beside a formula that
has a value.
-/
theorem evaluate_stepped_strictly :
    (∃ column ∈ (stepped 2).outputColumns, column.key = "stepped" ∧
      (strictly 0).columnValue (stepped 2) column (KeyMap.insert ∅ "range" 100) .exact none =
        .error (.budgetExceeded 0)) ∧
    ∃ result,
      (leniently 0).evaluate (stepped 2) (KeyMap.insert ∅ "range" 100) .exact none = .ok result ∧
      (result.columns.entries == [("price", 200), ("stepped", 0)]) = true ∧
      (strictly 0).evaluate (stepped 2) (KeyMap.insert ∅ "range" 100) .exact none = .ok result := by
  obtain ⟨_, _, hscripts⟩ :=
    evaluate_strictly_iff_leniently 0 (stepped 2) (KeyMap.insert ∅ "range" 100) .exact none
  obtain ⟨result, hresult, hcolumns⟩ := exists_ok_of_any
    (p := (·.columns.entries == [("price", 200), ("stepped", 0)]))
    (x := (leniently 0).evaluate (stepped 2) (KeyMap.insert ∅ "range" 100) .exact none)
    (by decide +kernel)
  constructor
  · refine ⟨.scripted "Stepped" "stepped" (.graduated "range" "rate"), ?_, rfl, rfl⟩
    simp [stepped, RateTable.outputColumns, Column.scripted]
  refine ⟨result, hresult, hcolumns, ?_⟩
  rw [hscripts, hresult]
  have hfailed : ((stepped 2).outputColumns.all fun column =>
      ((leniently 0).columnValue (stepped 2) column (KeyMap.insert ∅ "range" 100) .exact
        none).isOk || column.script.isSome) = true := by
    decide +kernel
  intro column hcolumn fault hfault
  have := List.all_eq_true.1 hfailed column hcolumn
  rw [hfault] at this
  exact this

end Evaluator

end Tariff
