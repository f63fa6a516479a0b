import Tariff.Proofs.Agreement
import Tariff.Proofs.WellFormed

/-!
This module contains how the metric that drives a table compares with the one that the total looks
its row up by. They are the same if a formula computes the total. A script is not asked for its key,
so with a script they are the same only if the formula beside it, or else the first column that
selects rows, happens to say so.
-/

namespace Tariff

namespace Column

def formulaKey? (α : Type) [Amount α] (column : Column) : Option String := do
  let text ← column.formula
  let formula : Formula α ← (Formula.parse text).toOption
  formula.key

/--
The key that a column looks its row up by: its script's, or else its formula's.
-/
def lookupKey? (α : Type) [Amount α] (column : Column) : Option String :=
  match column.script with
  | some script => some script.lookupKey
  | none => column.formulaKey? α

end Column

variable {α : Type}

theorem RateTable.outputWith?_eq_some {table : RateTable α} {role : Role}
    (hcheck : table.checkRole role = .ok ()) {column : Column}
    (hcolumn : column ∈ table.outputColumns) (hrole : column.role = some role) :
    table.outputWith? role = some column := by
  have hmem : column ∈ table.outputColumns.filter (·.role == some role) := by
    simp [List.mem_filter, hcolumn, hrole]
  unfold checkRole at hcheck
  unfold outputWith?
  rw [← List.head?_filter]
  split at hcheck
  next => cases hcheck
  next hlength =>
    -- Of at most one column with the role, the one at hand is the first.
    generalize table.outputColumns.filter (·.role == some role) = columns at *
    match columns with
    | [] => cases hmem
    | [other] =>
      rw [List.mem_singleton] at hmem
      rw [hmem]
      rfl
    | _ :: _ :: _ => simp at hlength

variable [Amount α]

theorem Column.formulaKey?_eq_some_iff {column : Column} {key : String} :
    column.formulaKey? α = some key ↔ ∃ text, column.formula = some text ∧
      ∃ formula : Formula α, Formula.parse text = .ok formula ∧ formula.key = some key := by
  unfold formulaKey?
  simp only [Option.bind_eq_bind, Option.bind_eq_some_iff]
  apply exists_congr
  intro text
  apply and_congr_right
  intro _
  apply exists_congr
  intro formula
  apply and_congr_left
  intro _
  cases (Formula.parse text : Except (Formula.ParseError α) (Formula α)) with
  | error error => simp [Except.toOption]
  | ok parsed => simp [Except.toOption]

theorem Evaluator.columnValue_eq_error_of_resolve {table : RateTable α} {column : Column}
    {key : String} (hkey : column.lookupKey? α = some key) {quantities : Quantities α}
    {quantity : α} (hquantity : quantities.find? key = some quantity) {mode : Mode}
    {fault : Fault α} (hresolve : table.resolve key quantity mode = .error fault)
    (evaluator : Evaluator) (discounted : Option α) :
    evaluator.columnValue table column quantities mode discounted = .error fault := by
  have hrequired := required_eq_ok_iff.2 hquantity
  unfold Column.lookupKey? at hkey
  unfold columnValue
  cases hscript : column.script with
  | some script =>
    rw [hscript] at hkey
    obtain rfl : script.lookupKey = key := Option.some.inj hkey
    simp only [hrequired, bind, Except.bind]
    cases script with
    | threePartCurve thresholdKey feeKey overageKey =>
      simp only [Script.lookupKey] at hresolve
      simp only [Script.evaluate, hresolve, bind, Except.bind]
    | graduated rangeKey rateKey =>
      simp only [Script.lookupKey] at hresolve
      simp only [Script.evaluate, hresolve, bind, Except.bind]
  | none =>
    rw [hscript] at hkey
    obtain ⟨text, htext, formula, hparse, hformula⟩ := Column.formulaKey?_eq_some_iff.1 hkey
    simp only [htext, hparse, Except.mapError, formulaValue, hformula, hrequired, hresolve, bind,
      Except.bind]

namespace RateTable

variable {table : RateTable α} {total : Column}

theorem totalKey?_eq_formulaKey? (hvalid : table.validate = .ok ())
    (htotal : total ∈ table.outputColumns) (hrole : total.role = some .total) :
    table.totalKey? = total.formulaKey? α := by
  obtain ⟨hkeys, _, hcheck, _, houtputs⟩ := table.validate_eq_ok_iff.1 hvalid
  have hlookup := (checkFormula_eq_ok_iff hkeys total).1 (houtputs total htotal).1
  have hbind : table.totalKey? = (total.formulaKey? α).bind fun key =>
      (table.column? key).bind fun column => some column.key := by
    unfold totalKey? Column.formulaKey?
    rw [outputWith?_eq_some hcheck htotal hrole]
    simp only [Option.bind_eq_bind, Option.bind_some, Option.bind_assoc, Option.pure_def]
  rw [hbind]
  cases hkey : total.formulaKey? α with
  | none => rfl
  | some key =>
    -- The formula passed its check, so the column it looks up is there.
    obtain ⟨text, htext, formula, hparse, hformula⟩ := Column.formulaKey?_eq_some_iff.1 hkey
    obtain ⟨column, hmem, rfl, _⟩ := hlookup text htext formula hparse key hformula
    simp [column?_eq_some_of_mem hkeys hmem]

theorem primaryKey?_eq_lookupKey_iff (hvalid : table.validate = .ok ())
    (htotal : total ∈ table.outputColumns) (hrole : total.role = some .total) {key : String}
    (hkey : total.lookupKey? α = some key) :
    (∀ (evaluator : Evaluator) (quantities : Quantities α) (quantity : α) (mode : Mode)
      (discounted : Option α) (fault : Fault α), quantities.find? key = some quantity →
      table.resolve key quantity mode = .error fault →
      evaluator.columnValue table total quantities mode discounted = .error fault) ∧
    (table.primaryKey? = some key ↔
      total.script = none ∨ total.formulaKey? α = some key ∨
      total.formulaKey? α = none ∧ table.lookupColumns.head?.map (·.key) = some key) := by
  constructor
  · intro evaluator quantities quantity mode discounted fault hquantity hresolve
    exact evaluator.columnValue_eq_error_of_resolve hkey hquantity hresolve discounted
  · unfold primaryKey?
    rw [totalKey?_eq_formulaKey? hvalid htotal hrole]
    unfold Column.lookupKey? at hkey
    cases hscript : total.script with
    | none =>
      rw [hscript] at hkey
      simp [hkey]
    | some script =>
      cases total.formulaKey? α with
      | none => simp
      | some other => simp

def meteredTotal (formula : Option String) : Column :=
  { Column.scripted "Price" "price" (.graduated "gb" "rate") with
    formula := formula
    role := some .total }

/--
A table whose total is computed by a script over the second of two metrics, with or without a
formula beside it.
-/
def metered (formula : Option String) : RateTable Float where
  columns := [
    { name := "Users", key := "users", kind := .metricRange },
    { name := "Storage", key := "gb", kind := .metricRange },
    { name := "Rate", key := "rate", kind := .rate },
    meteredTotal formula]
  rows := [
    Row.insert ∅ "users" (.range ⟨0, 10⟩) |>.insert "gb" (.range ⟨0, 100⟩)
      |>.insert "rate" (.number 2)]

def perStorage : Option String :=
  some "lookup(gb)\x7brate*gb\x7d"

theorem primaryKey?_metered_perStorage :
    (metered perStorage).validate = .ok () ∧ (metered perStorage).primaryKey? = some "gb" := by
  have hvalid : (metered perStorage).validate = .ok () := eq_ok_of_isOk (by decide +kernel)
  have htotal : meteredTotal perStorage ∈ (metered perStorage).outputColumns := .head _
  have hformula : (meteredTotal perStorage).formulaKey? Float = some "gb" := by decide +kernel
  exact ⟨hvalid, (primaryKey?_eq_lookupKey_iff hvalid htotal rfl rfl).2.2 (.inr (.inl hformula))⟩

/--
The script of the total looks up the second metric, and the first one is taken to drive the total.
-/
theorem primaryKey?_metered_ne :
    (metered none).validate = .ok () ∧ meteredTotal none ∈ (metered none).outputColumns ∧
    (meteredTotal none).role = some .total ∧ (meteredTotal none).lookupKey? Float = some "gb" ∧
    (metered none).primaryKey? ≠ some "gb" := by
  refine ⟨eq_ok_of_isOk (by decide +kernel), .head _, rfl, rfl, ?_⟩
  decide +kernel

end RateTable

end Tariff
