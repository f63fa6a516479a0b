import Tariff.Fault.Message
import Tariff.Proofs.Confinement
import Tariff.Proofs.Formula.Variables
import Tariff.Proofs.Graduated

/-!
This module contains the faults that are left to the output columns of a table that has passed its
checks. The checks establish that every column that is looked up selects rows, and that every row
has a range or a threshold in it. So a script can fail for a quantity without a row, for a lack of
steps, and for a row that has no number in one of the columns that are charged. A formula can fail
for its own reasons, and for a quantity without a row.
-/

namespace Tariff

def Script.valueKeys : Script → List String
  | threePartCurve _ feeKey overageKey => [feeKey, overageKey]
  | graduated _ rateKey => [rateKey]

variable {α : Type}

def ExpressionFault.OfFormula : ExpressionFault α → Prop
  | unknownName _ | divisionByZero | notFinite _ | noQuantity _ => True
  | _ => False

/--
The faults that a formula of a table without defects can have.
-/
def Fault.OfValidFormula (mode : Mode) : Fault α → Prop
  | rangeExceeded .. | rangeGap .. => mode = .exact
  | parse _ => True
  | expression fault => fault.OfFormula
  | _ => False

theorem exists_of_map_eq {β γ : Type} {f : β → Option γ} {xs : List β} {ys : List γ}
    (h : xs.map f = ys.map some) {x : β} (hx : x ∈ xs) : ∃ y, f x = some y := by
  have hmem : f x ∈ ys.map some := h ▸ List.mem_map_of_mem hx
  obtain ⟨y, _, hy⟩ := List.mem_map.1 hmem
  exact ⟨y, hy.symm⟩

namespace Script

variable {table : RateTable α} {discounted : Option α} {p : Fault α → Prop}

theorem step_faultsIn_of {limit : Nat} (hbudget : p (.budgetExceeded limit)) (left : Nat) :
    FaultsIn p (step limit left) := by
  unfold step
  split
  · exact .error hbudget
  · exact .ok _

theorem field_faultsIn_of {index : Nat} {row : Row α} {key : String}
    (hnumber : row.number? key = none → p (.expression (.noNumber index key))) :
    FaultsIn p (field table discounted index row key) := by
  unfold field
  split
  · exact .ok _
  · split
    next => exact .ok _
    next hnone => exact .error (hnumber hnone)

end Script

namespace RateTable

variable {table : RateTable α} {key : String}

theorem isLookup_eq_false_of_has (hkeys : (table.columns.map (·.key)).Nodup)
    (h : table.Has key [.rate, .fee]) : table.isLookup key = false := by
  obtain ⟨kind, hkind, hmem⟩ := (has_iff hkeys).1 h
  rw [isLookup, hkind]
  simp only [List.mem_cons, List.not_mem_nil, or_false] at hmem
  rcases hmem with rfl | rfl <;> rfl

theorem kind?_of_has_threshold (hkeys : (table.columns.map (·.key)).Nodup)
    (h : table.Has key [.threshold]) : table.kind? key = some .threshold := by
  obtain ⟨kind, hkind, hmem⟩ := (has_iff hkeys).1 h
  rw [hkind, List.mem_singleton.1 hmem]

theorem isLookup_of_fits (hkeys : (table.columns.map (·.key)).Nodup) {script : Script}
    (hfits : script.Fits table) : table.isLookup script.lookupKey = true := by
  cases script with
  | threePartCurve thresholdKey feeKey overageKey =>
    rw [isLookup, Script.lookupKey, kind?_of_has_threshold hkeys hfits.1]
    rfl
  | graduated rangeKey rateKey => exact (isLookup_iff hkeys).2 hfits.1

theorem lookupKey_not_mem_valueKeys (hkeys : (table.columns.map (·.key)).Nodup) {script : Script}
    (hfits : script.Fits table) : script.lookupKey ∉ script.valueKeys := by
  have hvalues : ∀ key ∈ script.valueKeys, table.Has key [.rate, .fee] := by
    cases script with
    | threePartCurve => simpa [Script.valueKeys] using hfits.2
    | graduated => simpa [Script.valueKeys] using hfits.2
  intro hmem
  have hlookup := isLookup_of_fits hkeys hfits
  rw [isLookup_eq_false_of_has hkeys (hvalues _ hmem)] at hlookup
  cases hlookup

end RateTable

variable [Amount α]

/--
A script has no number at or below the row that it finds for a quantity, in a column that it
charges.
-/
def Script.LacksNumber (script : Script) (table : RateTable α) (quantity : α) (mode : Mode)
    (index : Nat) (key : String) : Prop :=
  key ∈ script.valueKeys ∧
    ∃ hit row, table.resolve script.lookupKey quantity mode = .ok (some hit) ∧
      index ≤ hit.index ∧ table.rows[index]? = some row ∧ row.number? key = none

/--
The faults that a script of a table without defects can have.
-/
def Fault.OfValidScript (table : RateTable α) (script : Script) (quantity : α) (mode : Mode)
    (budget : Nat) : Fault α → Prop
  | rangeExceeded .. | rangeGap .. => mode = .exact
  | budgetExceeded limit => limit = budget
  | expression (.noNumber index key) => script.LacksNumber table quantity mode index key
  | _ => False

theorem Fault.ofValidScript_budgetExceeded {table : RateTable α} {script : Script} {quantity : α}
    {mode : Mode} {budget : Nat} :
    Fault.OfValidScript table script quantity mode budget (.budgetExceeded budget) :=
  rfl

namespace RateTable

variable {table : RateTable α} {key : String} {quantity : α} {mode : Mode}

theorem exists_range_of_validate (hvalid : table.validate = .ok ())
    (hkind : table.kind? key = some .metricRange) {row : Row α} (hrow : row ∈ table.rows) :
    ∃ range, row.range? key = some range := by
  obtain ⟨column, hmem, rfl, hcolumn⟩ := exists_column_of_kind? hkind
  have hchecked := checkLookupColumns_iff.1 (table.validate_eq_ok_iff.1 hvalid).2.1 column hmem
  obtain ⟨ranges, hranges, _⟩ := checkRanges_eq_ok_iff.1 (hchecked.1 hcolumn)
  exact exists_of_map_eq hranges hrow

theorem exists_threshold_of_validate (hvalid : table.validate = .ok ())
    (hkind : table.kind? key = some .threshold) {row : Row α} (hrow : row ∈ table.rows) :
    ∃ bound, row.number? key = some bound := by
  obtain ⟨column, hmem, rfl, hcolumn⟩ := exists_column_of_kind? hkind
  have hchecked := checkLookupColumns_iff.1 (table.validate_eq_ok_iff.1 hvalid).2.1 column hmem
  obtain ⟨bounds, hbounds, _⟩ := checkThresholds_eq_ok_iff.1 (hchecked.2 hcolumn)
  exact exists_of_map_eq hbounds hrow

theorem index_lt_of_index? {kind : ColumnKind} {domain : Range α} {index : Nat}
    (h : table.index? kind key domain quantity = some index) : index < table.rows.length := by
  unfold index? at h
  split at h
  next => cases h
  next =>
    split at h
    next => exact (List.findIdx?_eq_some_iff_getElem.1 h).1
    next =>
      obtain ⟨row, hrow, _⟩ := covers_of_rangeIndex? h
      exact (List.getElem?_eq_some_iff.1 hrow).1
    next => cases h

theorem resolve_of_index? {kind : ColumnKind} {index : Nat} (hkind : table.kind? key = some kind)
    (hlookup : kind.isLookup = true)
    (h : table.index? kind key (table.lookupDomain key) quantity = some index) (mode : Mode) :
    ∃ row, table.rows[index]? = some row ∧
      table.resolve key quantity mode = .ok (some ⟨index, row⟩) := by
  obtain ⟨column, hcolumn, rfl⟩ := filter_column?_of_kind? hkind hlookup
  obtain ⟨row, hrow⟩ : ∃ row, table.rows[index]? = some row :=
    ⟨_, List.getElem?_eq_getElem (index_lt_of_index? h)⟩
  exact ⟨row, hrow, resolve_eq_hit hcolumn (hit?_eq_some h hrow) mode⟩

theorem resolve_faultsIn_miss (hlookup : table.isLookup key = true) :
    FaultsIn (fun fault => fault.isRangeMiss = true ∧ mode = .exact)
      (table.resolve key quantity mode) := by
  obtain ⟨kind, hkind, hlookup⟩ := (Option.any_eq_true _ _).1 hlookup
  obtain ⟨column, hcolumn, rfl⟩ := filter_column?_of_kind? hkind hlookup
  cases hhit : table.hit? column.kind key quantity with
  | some hit =>
    rw [resolve_eq_hit hcolumn hhit]
    exact .ok _
  | none =>
    cases mode with
    | curve =>
      rw [resolve_curve_eq_none hcolumn hhit]
      exact .ok _
    | exact =>
      rw [resolve_exact_eq_miss hcolumn hhit]
      exact .error ⟨isRangeMiss_missFault .., rfl⟩

end RateTable

namespace Script

variable {table : RateTable α} {quantity : α} {mode : Mode} {budget : Nat} {discounted : Option α}

theorem exists_band (hvalid : table.validate = .ok ()) {rangeKey : String}
    (hlookup : table.isLookup rangeKey = true) {row : Row α} (hrow : row ∈ table.rows)
    (start : Option α) (index : Nat) :
    ∃ b, band table discounted rangeKey start index row = .ok b := by
  obtain ⟨kind, hkind, hkindLookup⟩ := (Option.any_eq_true _ _).1 hlookup
  cases kind with
  | metricRange =>
    obtain ⟨range, hrange⟩ := table.exists_range_of_validate hvalid hkind hrow
    exact ⟨_, band_of_range hkind hrange⟩
  | threshold =>
    obtain ⟨bound, hbound⟩ := table.exists_threshold_of_validate hvalid hkind hrow
    exact ⟨_, band_of_threshold hkind hbound⟩
  | _ => cases hkindLookup

theorem charge_faultsIn_of {p : Fault α → Prop} {rangeKey rateKey : String} {limit index : Nat}
    {rows : List (Row α)} (hbudget : p (.budgetExceeded limit))
    (hband : ∀ row ∈ rows, ∀ start index,
      ∃ b, band table discounted rangeKey start index row = .ok b)
    (hrate : ∀ offset row, rows[offset]? = some row → row.number? rateKey = none →
      p (.expression (.noNumber (index + offset) rateKey)))
    (left : Nat) (start : Option α) (total : α) :
    FaultsIn p
      (charge table discounted rangeKey rateKey quantity limit left index start total rows) := by
  induction rows generalizing left index start total with
  | nil => exact .ok _
  | cons row rows ih =>
    have hrates : ∀ offset row, rows[offset]? = some row → row.number? rateKey = none →
        p (.expression (.noNumber (index + 1 + offset) rateKey)) := by
      intro offset row hrow hnone
      rw [Nat.add_right_comm]
      exact hrate (offset + 1) row hrow hnone
    obtain ⟨hfirst, hbands⟩ := List.forall_mem_cons.1 hband
    obtain ⟨b, hb⟩ := hfirst start index
    unfold charge
    apply FaultsIn.bind
    · exact step_faultsIn_of hbudget left
    intro left _
    rw [hb, ok_bind]
    apply FaultsIn.bind
    · exact field_faultsIn_of (hrate 0 row rfl)
    intro rate _
    exact ih hbands hrates left _ _

theorem resolve_faultsIn_valid (script : Script)
    (hlookup : table.isLookup script.lookupKey = true) :
    FaultsIn (Fault.OfValidScript table script quantity mode budget)
      (table.resolve script.lookupKey quantity mode) := by
  refine FaultsIn.imp ?_ (table.resolve_faultsIn_miss hlookup)
  rintro fault ⟨hmiss, rfl⟩
  cases fault with
  | rangeExceeded | rangeGap => rfl
  | _ => cases hmiss

theorem threePartCurve_faultsIn (hvalid : table.validate = .ok ())
    {thresholdKey feeKey overageKey : String}
    (hkind : table.kind? thresholdKey = some .threshold) :
    FaultsIn
      (Fault.OfValidScript table (.threePartCurve thresholdKey feeKey overageKey) quantity mode
        budget)
      (evaluate (.threePartCurve thresholdKey feeKey overageKey) table quantity mode budget
        discounted) := by
  have hlookup : table.isLookup thresholdKey = true := by
    rw [RateTable.isLookup, hkind]
    rfl
  apply FaultsIn.bind
  · exact resolve_faultsIn_valid (.threePartCurve thresholdKey feeKey overageKey) hlookup
  intro hit? hresolve
  cases hit? with
  | none => exact .ok _
  | some hit =>
    have hlacks : ∀ key ∈ [feeKey, overageKey], ∀ index row, index ≤ hit.index →
        table.rows[index]? = some row → row.number? key = none →
        LacksNumber (.threePartCurve thresholdKey feeKey overageKey) table quantity mode index
          key :=
      fun key hkey index row hle hrow hnone =>
        ⟨hkey, hit, row, hresolve, hle, hrow, hnone⟩
    have hrow := table.getElem?_of_resolve_eq_ok hresolve
    apply FaultsIn.bind
    · exact step_faultsIn_of Fault.ofValidScript_budgetExceeded budget
    intro left _
    apply FaultsIn.bind
    · exact field_faultsIn_of (hlacks feeKey (by simp) hit.index hit.row (Nat.le_refl _) hrow)
    intro fee _
    split
    next index hindex =>
      have hle : index ≤ hit.index := by omega
      split
      next => exact .ok _
      next row hprevious =>
        obtain ⟨bound, hbound⟩ := table.exists_threshold_of_validate hvalid hkind
          (List.mem_of_getElem? hprevious)
        rw [← reading?_of_kind? hkind rfl discounted] at hbound
        apply FaultsIn.bind
        · exact step_faultsIn_of Fault.ofValidScript_budgetExceeded left
        intro _ _
        apply FaultsIn.bind
        · exact field_faultsIn_of (hlacks feeKey (by simp) index row hle hprevious)
        intro previousFee _
        apply FaultsIn.bind
        · exact field_faultsIn_of (hlacks overageKey (by simp) index row hle hprevious)
        intro overage _
        rw [field_eq_ok hbound]
        exact .ok _
    next => exact .ok _

theorem graduated_faultsIn (hvalid : table.validate = .ok ()) {rangeKey rateKey : String}
    (hlookup : table.isLookup rangeKey = true) :
    FaultsIn (Fault.OfValidScript table (.graduated rangeKey rateKey) quantity mode budget)
      (evaluate (.graduated rangeKey rateKey) table quantity mode budget discounted) := by
  apply FaultsIn.bind
  · exact resolve_faultsIn_valid (.graduated rangeKey rateKey) hlookup
  intro hit? hresolve
  cases hit? with
  | none => exact .ok _
  | some hit =>
    apply charge_faultsIn_of
    · exact Fault.ofValidScript_budgetExceeded
    · intro row hrow start index
      exact exists_band hvalid hlookup (List.mem_of_mem_take hrow) start index
    · intro offset row hrow hnone
      rw [List.getElem?_take] at hrow
      rw [Nat.zero_add]
      split at hrow
      next hle =>
        exact ⟨by simp [valueKeys], hit, row, hresolve, Nat.le_of_lt_succ hle, hrow, hnone⟩
      next => cases hrow

end Script

namespace Evaluator

variable {table : RateTable α} {quantities : Quantities α} {mode : Mode} {discounted : Option α}

theorem evaluate_mapError_faultsIn (expr : Formula.Expr α) (bindings : Bindings α) :
    FaultsIn (Fault.OfValidFormula mode) ((expr.evaluate bindings).mapError .expression) := by
  have hfaults : FaultsIn ExpressionFault.OfFormula (expr.evaluate bindings) :=
    Formula.Expr.evaluate_faultsIn trivial (fun _ => trivial) fun _ _ _ => trivial
  exact hfaults.mapError_of fun _ h => h

theorem formulaValue_faultsIn_valid {formula : Formula α}
    (hlookup : ∀ key, formula.key = some key → table.isLookup key = true) :
    FaultsIn (Fault.OfValidFormula mode)
      (formulaValue table formula quantities mode discounted) := by
  unfold formulaValue
  split
  next => apply evaluate_mapError_faultsIn
  next key hkey =>
    apply FaultsIn.bind
    · unfold required
      split
      · exact .ok _
      · exact .error trivial
    intro quantity _
    apply FaultsIn.bind
    · refine FaultsIn.imp ?_ (table.resolve_faultsIn_miss (hlookup key hkey))
      rintro fault ⟨hmiss, rfl⟩
      cases fault with
      | rangeExceeded | rangeGap => rfl
      | _ => cases hmiss
    intro hit? _
    cases hit? with
    | none => exact .ok _
    | some hit => apply evaluate_mapError_faultsIn

end Evaluator

namespace RateTable

variable {table : RateTable α} {column : Column}

theorem isLookup_of_formula (hvalid : table.validate = .ok ()) (hmem : column ∈ table.outputColumns)
    {text : String} (htext : column.formula = some text) {formula : Formula α}
    (hparse : Formula.parse text = .ok formula) {key : String} (hkey : formula.key = some key) :
    table.isLookup key = true := by
  obtain ⟨hkeys, _, _, _, houtputs⟩ := table.validate_eq_ok_iff.1 hvalid
  rw [isLookup_iff hkeys]
  have hformula := (checkFormula_eq_ok_iff hkeys column).1 (houtputs column hmem).1
  exact hformula text htext formula hparse key hkey

theorem fits_of_script (hvalid : table.validate = .ok ()) (hmem : column ∈ table.outputColumns)
    {script : Script} (hscript : column.script = some script) : script.Fits table := by
  obtain ⟨hkeys, _, _, _, houtputs⟩ := table.validate_eq_ok_iff.1 hvalid
  exact (checkScript_eq_ok_iff hkeys column).1 (houtputs column hmem).2 script hscript

theorem script_faultsIn_valid (hvalid : table.validate = .ok ()) {script : Script}
    (hfits : script.Fits table) (quantity : α) (mode : Mode) (budget : Nat)
    (discounted : Option α) :
    FaultsIn (Fault.OfValidScript table script quantity mode budget)
      (script.evaluate table quantity mode budget discounted) := by
  have hkeys := (table.validate_eq_ok_iff.1 hvalid).1
  cases script with
  | threePartCurve =>
    exact Script.threePartCurve_faultsIn hvalid (kind?_of_has_threshold hkeys hfits.1)
  | graduated => exact Script.graduated_faultsIn hvalid (isLookup_of_fits hkeys hfits)

theorem columnValue_faultsIn_valid (hvalid : table.validate = .ok ())
    (hmem : column ∈ table.outputColumns) (hscript : column.script = none) (evaluator : Evaluator)
    (quantities : Quantities α) (mode : Mode) (discounted : Option α) :
    FaultsIn (Fault.OfValidFormula mode)
      (evaluator.columnValue table column quantities mode discounted) := by
  unfold Evaluator.columnValue
  rw [hscript]
  cases hformula : column.formula with
  | none => exact .ok _
  | some text =>
    dsimp only
    cases hparse : (Formula.parse text : Except _ (Formula α)) with
    | error error => exact .error trivial
    | ok formula =>
      apply Evaluator.formulaValue_faultsIn_valid
      intro key hkey
      exact isLookup_of_formula hvalid hmem hformula hparse hkey

/--
What can go wrong with the output columns of a table that has passed its checks. No lookup is in a
column that selects no rows, and all rows that are found are rows of the table.
-/
theorem output_faults_of_validate (hvalid : table.validate = .ok ())
    (hmem : column ∈ table.outputColumns) :
    (∀ script, column.script = some script →
      script.lookupKey ∉ script.valueKeys ∧
      ∀ quantity mode,
        (∀ kind index, table.kind? script.lookupKey = some kind →
          table.index? kind script.lookupKey (table.lookupDomain script.lookupKey) quantity =
            some index →
          (∀ used ≤ index, used < table.rows.length) ∧
          ∃ row, table.rows[index]? = some row ∧
            table.resolve script.lookupKey quantity mode = .ok (some ⟨index, row⟩)) ∧
        ∀ budget discounted,
          FaultsIn (Fault.OfValidScript table script quantity mode budget)
            (script.evaluate table quantity mode budget discounted)) ∧
    (∀ text (formula : Formula α) key, column.formula = some text →
      Formula.parse text = .ok formula → formula.key = some key →
      ∀ quantity mode, table.resolve key quantity mode ≠ .error (.expression (.notLookup key))) ∧
    (column.script = none → ∀ (evaluator : Evaluator) quantities mode discounted,
      FaultsIn (Fault.OfValidFormula mode)
        (evaluator.columnValue table column quantities mode discounted)) := by
  have hkeys := (table.validate_eq_ok_iff.1 hvalid).1
  refine ⟨?_, ?_, ?_⟩
  · intro script hscript
    have hfits := fits_of_script hvalid hmem hscript
    refine ⟨lookupKey_not_mem_valueKeys hkeys hfits, ?_⟩
    intro quantity mode
    refine ⟨?_, script_faultsIn_valid hvalid hfits quantity mode⟩
    intro kind index hkind hindex
    have hlookup := isLookup_of_fits hkeys hfits
    rw [isLookup, hkind, Option.any_some] at hlookup
    refine ⟨?_, resolve_of_index? hkind hlookup hindex mode⟩
    intro used hused
    exact Nat.lt_of_le_of_lt hused (index_lt_of_index? hindex)
  · intro text formula key htext hparse hkey quantity mode hresolve
    have hlookup := isLookup_of_formula hvalid hmem htext hparse hkey
    have hmiss := (resolve_faultsIn_miss hlookup _ hresolve).1
    cases hmiss
  · exact columnValue_faultsIn_valid hvalid hmem

def tieredRate : Script :=
  .graduated "range" "rate"

/--
A table whose second rate is no number.
-/
def rateOnRequest : RateTable Float where
  columns := [
    { name := "Range", key := "range", kind := .metricRange },
    { name := "Rate", key := "rate", kind := .rate },
    .scripted "Stepped" "stepped" tieredRate]
  rows := [
    Row.insert ∅ "range" (.range ⟨0, 100⟩) |>.insert "rate" (.number 5),
    Row.insert ∅ "range" (.range ⟨100, 200⟩) |>.insert "rate" (.text "on request")]

theorem evaluate_rateOnRequest_ofValidScript :
    rateOnRequest.validate = .ok () ∧
    ∃ fault, tieredRate.evaluate rateOnRequest 150 .exact 10 none = .error fault ∧
      fault.message = "Expression error: row 1 has no numeric 'rate'" ∧
      Fault.OfValidScript rateOnRequest tieredRate 150 .exact 10 fault := by
  have hvalid : rateOnRequest.validate = .ok () := eq_ok_of_isOk (by decide +kernel)
  have hmem : .scripted "Stepped" "stepped" tieredRate ∈ rateOnRequest.outputColumns := .head _
  have hscripts := (output_faults_of_validate hvalid hmem).1 tieredRate rfl
  have hfaults := (hscripts.2 150 .exact).2 10 none
  have hmessage : (match tieredRate.evaluate rateOnRequest 150 .exact 10 none with
      | .error fault => some fault.message
      | .ok _ => none) = some "Expression error: row 1 has no numeric 'rate'" := by
    decide +kernel
  refine ⟨hvalid, ?_⟩
  cases hvalue : tieredRate.evaluate rateOnRequest 150 .exact 10 none with
  | ok value =>
    rw [hvalue] at hmessage
    cases hmessage
  | error fault =>
    rw [hvalue] at hmessage
    exact ⟨fault, rfl, Option.some.inj hmessage, hfaults fault hvalue⟩

end RateTable

end Tariff
