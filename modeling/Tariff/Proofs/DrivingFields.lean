import Tariff.DrivingFields
import Tariff.Proofs.Agreement
import Tariff.Proofs.Formula.Variables
import Tariff.Proofs.KeyMap
import Tariff.Proofs.Validate

/-!
This module contains how far the driving fields of an output column determine it. They leave out the
fields of rows. A field that the row at hand has no number for is read from the quantities instead,
and a column can depend on such a quantity too; beside these, on the driving fields alone.
-/

namespace Tariff

variable {α : Type}

namespace RateTable

theorem mem_formulaFields_of_key {table : RateTable α} {formula : Formula α} {key : String}
    (hkey : formula.key = some key) : key ∈ table.formulaFields formula := by
  simp [formulaFields, hkey]

theorem mem_formulaFields {table : RateTable α} {formula : Formula α} {name : String}
    (hname : name ∈ formula.identifiers) (hquantity : table.isQuantity name = true)
    (hkey : formula.key ≠ some name) : name ∈ table.formulaFields formula := by
  unfold formulaFields
  apply List.mem_append_right
  rw [List.mem_filter]
  cases hformula : formula.key with
  | none => simp [hname, hquantity]
  | some key =>
    have hne : name ≠ key := by
      rintro rfl
      exact hkey hformula
    simp [hname, hquantity, hne]

end RateTable

theorem Evaluator.required_congr {quantities quantities' : Quantities α} {key : String}
    (h : quantities.find? key = quantities'.find? key) :
    required quantities key = required quantities' key := by
  unfold required
  rw [h]

variable [Amount α]

namespace RateTable

/--
The row whose numbers a formula reads. A formula without a lookup key reads the empty row, and one
that finds no row is not evaluated.
-/
def formulaRow? (table : RateTable α) (formula : Formula α) (quantities : Quantities α)
    (mode : Mode) : Option (Row α) :=
  match formula.key with
  | none => some ∅
  | some key => do
    let quantity ← quantities.find? key
    let hit ← (table.resolve key quantity mode).toOption.join
    return hit.row

/--
The variables of a formula that are fields of rows but have no number in the row it reads.
-/
def formulaBorrows (table : RateTable α) (formula : Formula α) (quantities : Quantities α)
    (mode : Mode) : List String :=
  match table.formulaRow? formula quantities mode with
  | none => []
  | some row => formula.identifiers.filter fun name =>
      !table.isQuantity name && (row.number? name).isNone

/--
The fields of rows that an output column takes from the quantities, for want of a number in its row.
-/
def columnBorrows (table : RateTable α) (column : Column) (quantities : Quantities α)
    (mode : Mode) : List String :=
  match column.script, column.formula with
  | none, some text =>
    match (Formula.parse text : Except (Formula.ParseError α) (Formula α)) with
    | .ok formula => table.formulaBorrows formula quantities mode
    | .error _ => []
  | _, _ => []

theorem find?_drivingFields {table : RateTable α} (hkeys : (table.columns.map (·.key)).Nodup)
    {column : Column} (hcolumn : column ∈ table.outputColumns) :
    table.drivingFields.find? column.key = some (table.columnFields column) := by
  unfold drivingFields
  rw [KeyMap.find?_ofList_map_eq_some_iff (nodup_keys_outputColumns hkeys)]
  exact ⟨column, hcolumn, rfl, rfl⟩

end RateTable

namespace Evaluator

variable {table : RateTable α} {quantities quantities' : Quantities α} {mode : Mode}

section Agree

variable {formula : Formula α}
  (hfields : ∀ key ∈ table.formulaFields formula, quantities.find? key = quantities'.find? key)
  (hborrows : ∀ name ∈ table.formulaBorrows formula quantities mode,
    quantities.find? name = quantities'.find? name)
include hfields hborrows

theorem find?_eq_of_agree {row : Row α}
    (hrow : table.formulaRow? formula quantities mode = some row) {name : String}
    (hname : name ∈ formula.identifiers) (hkey : formula.key ≠ some name) :
    (row.number? name).or (quantities.find? name) =
      (row.number? name).or (quantities'.find? name) := by
  cases hnumber : row.number? name with
  | some number => rfl
  | none =>
    rw [Option.none_or, Option.none_or]
    cases hquantity : table.isQuantity name with
    | true => exact hfields name (RateTable.mem_formulaFields hname hquantity hkey)
    | false =>
      apply hborrows
      simp [RateTable.formulaBorrows, hrow, hname, hquantity, hnumber]

theorem evaluate_hit_eq_of_agree {key : String} (hkey : formula.key = some key) {row : Row α}
    (hrow : table.formulaRow? formula quantities mode = some row) (quantity : α) :
    formula.expr.evaluate ((row.numbers.orElse quantities).insert key quantity) =
      formula.expr.evaluate ((row.numbers.orElse quantities').insert key quantity) := by
  apply Formula.Expr.evaluate_congr
  intro name hname
  rw [KeyMap.find?_insert, KeyMap.find?_insert]
  split
  next => rfl
  next hne =>
    rw [KeyMap.find?_orElse, KeyMap.find?_orElse, Row.find?_numbers]
    apply find?_eq_of_agree hfields hborrows hrow hname
    rw [hkey]
    rintro ⟨⟩
    exact hne rfl

theorem formulaValue_eq_of_agree :
    formulaValue table formula quantities mode none =
      formulaValue table formula quantities' mode none := by
  unfold formulaValue
  cases hkey : formula.key with
  | none =>
    have hrow : table.formulaRow? formula quantities mode = some ∅ := by
      simp [RateTable.formulaRow?, hkey]
    have hvalue : formula.expr.evaluate quantities = formula.expr.evaluate quantities' := by
      apply Formula.Expr.evaluate_congr
      intro name hname
      exact find?_eq_of_agree hfields hborrows hrow hname (by simp [hkey])
    simp only [withDiscounted, hvalue]
  | some key =>
    have hquantity := hfields key (RateTable.mem_formulaFields_of_key hkey)
    dsimp only
    rw [← required_congr hquantity]
    -- Both runs look up the same quantity, so they find the same row or stop the same way.
    cases hrequired : required quantities key with
    | error fault => rfl
    | ok quantity =>
      simp only [bind, Except.bind]
      cases hresolve : table.resolve key quantity mode with
      | error fault => rfl
      | ok hit? =>
        cases hit? with
        | none => rfl
        | some hit =>
          have hrow : table.formulaRow? formula quantities mode = some hit.row := by
            simp [RateTable.formulaRow?, hkey, required_eq_ok_iff.1 hrequired, hresolve,
              Except.toOption]
          simp only [withDiscounted, evaluate_hit_eq_of_agree hfields hborrows hkey hrow]

end Agree

theorem columnValue_eq_of_agree {column : Column}
    (hfields : ∀ key ∈ table.columnFields column, quantities.find? key = quantities'.find? key)
    (hborrows : ∀ name ∈ table.columnBorrows column quantities mode,
      quantities.find? name = quantities'.find? name) (evaluator : Evaluator) :
    evaluator.columnValue table column quantities mode none =
      evaluator.columnValue table column quantities' mode none := by
  unfold RateTable.columnFields at hfields
  unfold RateTable.columnBorrows at hborrows
  unfold columnValue
  cases hscript : column.script with
  | some script =>
    simp only [hscript, List.mem_singleton, forall_eq] at hfields
    dsimp only
    rw [required_congr hfields]
  | none =>
    cases hformula : column.formula with
    | none => rfl
    | some text =>
      cases hparse : (Formula.parse text : Except (Formula.ParseError α) (Formula α)) with
      | error error =>
        dsimp only
        rw [hparse]
        rfl
      | ok formula =>
        simp only [hscript, hformula, hparse] at hfields hborrows
        dsimp only
        rw [hparse]
        exact formulaValue_eq_of_agree hfields hborrows

theorem columnResult_eq_of_drivingFields_agree {table : RateTable α}
    (hvalid : table.validate = .ok ()) {column : Column} (hcolumn : column ∈ table.outputColumns) :
    ∃ fields, table.drivingFields.find? column.key = some fields ∧
      ∀ (evaluator : Evaluator) (mode : Mode) (quantities quantities' : Quantities α),
        (∀ key ∈ fields, quantities.find? key = quantities'.find? key) →
        (∀ name ∈ table.columnBorrows column quantities mode,
          quantities.find? name = quantities'.find? name) →
        evaluator.columnValue table column quantities mode none =
          evaluator.columnValue table column quantities' mode none ∧
        evaluator.columnResult table column quantities mode none =
          evaluator.columnResult table column quantities' mode none := by
  have hkeys := (table.validate_eq_ok_iff.1 hvalid).1
  refine ⟨table.columnFields column, RateTable.find?_drivingFields hkeys hcolumn, ?_⟩
  intro evaluator mode quantities quantities' hfields hborrows
  have hvalue := columnValue_eq_of_agree hfields hborrows evaluator
  refine ⟨hvalue, ?_⟩
  unfold columnResult
  rw [hvalue]

def ratedPrice : Column :=
  .output "Price" "price" "lookup(range)\x7brate*range\x7d"

def surcharge : Column :=
  .output "Surcharge" "surcharge" "rate*2"

/--
A table whose only row has no rate, with a price that looks the row up and a surcharge that does
not.
-/
def onRequest : RateTable Float where
  columns := [
    { name := "Range", key := "range", kind := .metricRange },
    { name := "Rate", key := "rate", kind := .rate },
    ratedPrice,
    surcharge]
  rows := [Row.insert ∅ "range" (.range ⟨0, 100⟩) |>.insert "rate" (.text "on request")]

def ratedSeats (seats : Float) : Quantities Float :=
  KeyMap.insert ∅ "range" 50 |>.insert "rate" 3 |>.insert "seats" seats

theorem columnResult_onRequest_eq :
    onRequest.validate = .ok () ∧ ratedPrice ∈ onRequest.outputColumns ∧
    onRequest.columnBorrows ratedPrice (ratedSeats 1) .exact = ["rate"] ∧
    ({} : Evaluator).columnResult onRequest ratedPrice (ratedSeats 1) .exact none =
      ({} : Evaluator).columnResult onRequest ratedPrice (ratedSeats 2) .exact none := by
  have hvalid : onRequest.validate = .ok () := eq_ok_of_isOk (by decide +kernel)
  have hcolumn : ratedPrice ∈ onRequest.outputColumns := .head _
  have hborrows : onRequest.columnBorrows ratedPrice (ratedSeats 1) .exact = ["rate"] := by
    decide +kernel
  obtain ⟨fields, hfields, hagree⟩ := columnResult_eq_of_drivingFields_agree hvalid hcolumn
  have hrange : onRequest.drivingFields.find? ratedPrice.key = some ["range"] := by decide +kernel
  obtain rfl : ["range"] = fields := Option.some.inj (hrange.symm.trans hfields)
  refine ⟨hvalid, hcolumn, hborrows, (hagree {} .exact _ _ ?_ ?_).2⟩
  · simp [ratedSeats]
  · rw [hborrows]
    simp [ratedSeats]

def rangeOnly : Quantities Float :=
  KeyMap.insert ∅ "range" 50

/--
A rate is no driving field, and still it decides both outputs where it is given as a quantity: the
price finds none in its row, and the surcharge looks up no row.
-/
theorem columnResult_onRequest_not_driven :
    onRequest.validate = .ok () ∧
    ∀ column ∈ onRequest.outputColumns,
      ∃ fields, onRequest.drivingFields.find? column.key = some fields ∧
        (∀ key ∈ fields, rangeOnly.find? key = (rangeOnly.insert "rate" 3).find? key) ∧
        ({} : Evaluator).columnResult onRequest column rangeOnly .exact none ≠
          ({} : Evaluator).columnResult onRequest column (rangeOnly.insert "rate" 3) .exact
            none := by
  refine ⟨eq_ok_of_isOk (by decide +kernel), ?_⟩
  have hall : (onRequest.outputColumns.all fun column =>
      (onRequest.drivingFields.find? column.key).any ("rate" ∉ ·) &&
      (({} : Evaluator).columnResult onRequest column rangeOnly .exact
        none).toOption.any (· == 0) &&
      !(({} : Evaluator).columnResult onRequest column (rangeOnly.insert "rate" 3) .exact
        none).toOption.any (· == 0)) = true := by
    decide +kernel
  intro column hcolumn
  have hdiffers := List.all_eq_true.1 hall column hcolumn
  simp only [Bool.and_eq_true, Bool.not_eq_true', Option.any_eq_true, decide_eq_true_eq]
    at hdiffers
  obtain ⟨⟨⟨fields, hfields, hrate⟩, value, hvalue, hzero⟩, hother⟩ := hdiffers
  refine ⟨fields, hfields, ?_, fun h => ?_⟩
  · intro key hkey
    have hne : key ≠ "rate" := by
      rintro rfl
      exact hrate hkey
    simp [hne]
  · rw [← h, hvalue] at hother
    simp [hzero] at hother

end Evaluator

end Tariff
