import Tariff.Engine
import Tariff.Proofs.Lookup
import Tariff.Proofs.Validate

/-!
This module contains which faults can come out of each step of a calculation, from a lookup up to
the answer of an engine. Most faults stay inside the output column or the addon they arise in: a
request for a known tier fails only for a quantity without a row, and with strict settings also for
a formula that has no value.
-/

namespace Tariff

/--
The faults that an output column can have before any of them is taken for zero. Only formulas are
parsed, and only scripts use up steps.
-/
def Fault.OfColumn {α : Type} (mode : Mode) (scripted : Bool) : Fault α → Prop
  | rangeExceeded .. | rangeGap .. => mode = .exact
  | parse _ => scripted = false
  | expression _ => True
  | budgetExceeded _ => scripted = true
  | _ => False

/--
The faults that are left of a table when defects have been taken for zero.
-/
def Fault.Escapes {α : Type} (mode : Mode) (strict : Bool) : Fault α → Prop
  | rangeExceeded .. | rangeGap .. => mode = .exact
  | parse _ | expression _ => strict = true
  | _ => False

/--
The faults that the charge for an addon can have before addons without prices are left out.
-/
def Fault.OfAddon {α : Type} (mode : Mode) (strict : Bool) : Fault α → Prop
  | missingReference _ => True
  | fault => fault.Escapes mode strict

variable {α : Type}

theorem Fault.OfAddon.of_escapes {mode : Mode} {strict : Bool} {fault : Fault α}
    (h : fault.Escapes mode strict) : fault.OfAddon mode strict := by
  cases fault with
  | missingReference => trivial
  | _ => exact h

namespace Script

theorem field_faultsIn (table : RateTable α) (discounted : Option α) (index : Nat) (row : Row α)
    (key : String) (mode : Mode) (scripted : Bool) :
    FaultsIn (Fault.OfColumn mode scripted) (field table discounted index row key) := by
  unfold field
  split
  · exact .ok _
  · split
    · exact .ok _
    · exact .error trivial

theorem step_faultsIn (limit left : Nat) (mode : Mode) :
    FaultsIn (Fault.OfColumn mode true) (step limit left : Except (Fault α) Nat) := by
  unfold step
  split
  · exact .error rfl
  · exact .ok _

end Script

theorem Evaluator.required_faultsIn (quantities : Quantities α) (key : String) (mode : Mode)
    (scripted : Bool) : FaultsIn (Fault.OfColumn mode scripted) (required quantities key) := by
  unfold required
  split
  · exact .ok _
  · exact .error trivial

theorem Evaluator.escapes_of_not_degrades {evaluator : Evaluator} {mode : Mode} {column : Column}
    {fault : Fault α} (hfault : fault.OfColumn mode column.script.isSome)
    (hdegrades : ¬evaluator.degrades column fault = true) :
    fault.Escapes mode evaluator.strict := by
  cases fault with
  | rangeExceeded => exact hfault
  | rangeGap => exact hfault
  | parse =>
    simp only [degrades, Fault.isDefect, Bool.true_and, Bool.or_eq_true, not_or] at hdegrades
    show evaluator.strict = true
    simpa using hdegrades.2
  | expression =>
    simp only [degrades, Fault.isDefect, Bool.true_and, Bool.or_eq_true, not_or] at hdegrades
    show evaluator.strict = true
    simpa using hdegrades.2
  | budgetExceeded =>
    -- Only scripts use up steps, and a script that does is taken for zero even in strict settings.
    have hscript : column.script.isSome = true := hfault
    simp [degrades, hscript, Fault.isRangeMiss] at hdegrades
  | missingReference => exact hfault
  | config => exact hfault
  | unknownTier => exact hfault

theorem Addon.units_faultsIn (addon : Addon α) (quantity : AddonQuantity α) (mode : Mode)
    (strict : Bool) : FaultsIn (Fault.OfAddon mode strict) (addon.units quantity) := by
  unfold units
  split
  · exact .ok _
  · exact .error trivial

theorem PricingModel.tier?_eq_none_iff (model : PricingModel α) (id : String) :
    model.tier? id = none ↔ ∀ tier ∈ model.tiers, tier.id ≠ id := by
  unfold tier?
  simp [List.find?_eq_none]

variable [Amount α]

theorem RateTable.resolve_faultsIn (table : RateTable α) (key : String) (quantity : α) (mode : Mode)
    (scripted : Bool) :
    FaultsIn (Fault.OfColumn mode scripted) (table.resolve key quantity mode) := by
  cases hcolumn : (table.column? key).filter (·.kind.isLookup) with
  | none =>
    rw [resolve_eq_notLookup hcolumn]
    exact .error trivial
  | some column =>
    cases hhit : table.hit? column.kind key quantity with
    | some hit =>
      rw [resolve_eq_hit hcolumn hhit]
      exact .ok _
    | none =>
      cases mode with
      | curve =>
        rw [resolve_curve_eq_none hcolumn hhit]
        exact .ok _
      | exact =>
        rw [resolve_exact_eq_miss hcolumn hhit]
        unfold missFault
        split
        · exact .error rfl
        · exact .error rfl

namespace Script

variable (table : RateTable α) (discounted : Option α)

theorem band_faultsIn (rangeKey : String) (start : Option α) (index : Nat) (row : Row α)
    (mode : Mode) (scripted : Bool) :
    FaultsIn (Fault.OfColumn mode scripted) (band table discounted rangeKey start index row) := by
  unfold band
  split
  · split
    · exact .ok _
    · exact .error trivial
  · apply FaultsIn.bind
    · apply field_faultsIn
    · intro high _
      exact .ok _

theorem charge_faultsIn (rangeKey rateKey : String) (quantity : α) (limit left index : Nat)
    (start : Option α) (total : α) (rows : List (Row α)) (mode : Mode) :
    FaultsIn (Fault.OfColumn mode true)
      (charge table discounted rangeKey rateKey quantity limit left index start total rows) := by
  induction rows generalizing left index start total with
  | nil => exact .ok _
  | cons row rows ih =>
    unfold charge
    apply FaultsIn.bind
    · apply step_faultsIn
    intro left _
    apply FaultsIn.bind
    · apply band_faultsIn
    intro band _
    apply FaultsIn.bind
    · apply field_faultsIn
    intro rate _
    apply ih

theorem evaluate_faultsIn (script : Script) (quantity : α) (mode : Mode) (budget : Nat) :
    FaultsIn (Fault.OfColumn mode true)
      (script.evaluate table quantity mode budget discounted) := by
  unfold evaluate
  cases script with
  | threePartCurve thresholdKey feeKey overageKey =>
    apply FaultsIn.bind
    · apply RateTable.resolve_faultsIn
    intro hit? _
    cases hit? with
    | none => exact .ok _
    | some hit =>
      apply FaultsIn.bind
      · apply step_faultsIn
      intro left _
      apply FaultsIn.bind
      · apply field_faultsIn
      intro fee _
      split
      · split
        · exact .ok _
        · apply FaultsIn.bind
          · apply step_faultsIn
          intro _ _
          apply FaultsIn.bind
          · apply field_faultsIn
          intro previousFee _
          apply FaultsIn.bind
          · apply field_faultsIn
          intro overage _
          apply FaultsIn.bind
          · apply field_faultsIn
          intro threshold _
          exact .ok _
      · exact .ok _
  | graduated rangeKey rateKey =>
    apply FaultsIn.bind
    · apply RateTable.resolve_faultsIn
    intro hit? _
    cases hit? with
    | none => exact .ok _
    | some hit => apply charge_faultsIn

end Script

namespace Evaluator

variable (evaluator : Evaluator) (table : RateTable α) (quantities : Quantities α) (mode : Mode)
  (discounted : Option α)

theorem formulaValue_faultsIn (formula : Formula α) :
    FaultsIn (Fault.OfColumn mode false)
      (formulaValue table formula quantities mode discounted) := by
  unfold formulaValue
  split
  · apply FaultsIn.mapError
    intro fault
    trivial
  · apply FaultsIn.bind
    · apply required_faultsIn
    intro quantity _
    apply FaultsIn.bind
    · apply RateTable.resolve_faultsIn
    intro hit? _
    cases hit? with
    | none => exact .ok _
    | some hit =>
      apply FaultsIn.mapError
      intro fault
      trivial

theorem columnValue_faultsIn (column : Column) :
    FaultsIn (Fault.OfColumn mode column.script.isSome)
      (evaluator.columnValue table column quantities mode discounted) := by
  unfold columnValue
  cases column.script with
  | some script =>
    apply FaultsIn.bind
    · apply required_faultsIn
    intro quantity _
    apply Script.evaluate_faultsIn
  | none =>
    cases column.formula with
    | none => exact .ok _
    | some text =>
      apply FaultsIn.bind
      · apply FaultsIn.mapError
        intro error
        rfl
      intro formula _
      apply formulaValue_faultsIn

theorem columnResult_faultsIn (column : Column) :
    FaultsIn (Fault.Escapes mode evaluator.strict)
      (evaluator.columnResult table column quantities mode discounted) := by
  unfold columnResult
  split
  next => exact .ok _
  next fault hfault =>
    split
    next => exact .ok _
    next hdegrades =>
      apply FaultsIn.error
      apply escapes_of_not_degrades _ hdegrades
      exact columnValue_faultsIn evaluator table quantities mode discounted column fault hfault

theorem evaluate_faultsIn :
    FaultsIn (Fault.Escapes mode evaluator.strict)
      (evaluator.evaluate table quantities mode discounted) := by
  unfold evaluate
  apply FaultsIn.bind
  · apply FaultsIn.foldlM
    intro columns column _
    apply FaultsIn.bind
    · apply columnResult_faultsIn
    intro value _
    exact .ok _
  · intro columns _
    exact .ok _

end Evaluator

theorem PriceFigures.reconcile_faultsIn {ε : Type} {p : ε → Prop} (unitPrice total : α)
    (discount : Option (Discount α)) (precision : Precision) {reprice : α → Except ε α}
    (hreprice : ∀ unitPrice, FaultsIn p (reprice unitPrice)) :
    FaultsIn p (reconcile unitPrice total discount precision reprice) := by
  unfold reconcile
  split
  · exact .ok _
  · apply FaultsIn.bind (hreprice _)
    intro total _
    exact .ok _
  · exact .ok _

namespace Addon

variable (evaluator : Evaluator) (addon : Addon α) (quantity : AddonQuantity α) (core : α)
  (mode : Mode)

theorem tableInputs_faultsIn (strict : Bool) :
    FaultsIn (Fault.OfAddon mode strict) (addon.tableInputs quantity) := by
  unfold tableInputs
  split
  · exact .error trivial
  · split
    · exact .ok _
    · split
      · exact .ok _
      · exact .error trivial

theorem evaluate_faultsIn (table : RateTable α) (quantities : Quantities α)
    (discounted : Option α) :
    FaultsIn (Fault.OfAddon mode evaluator.strict)
      (evaluator.evaluate table quantities mode discounted) := by
  apply FaultsIn.imp (fun _ => Fault.OfAddon.of_escapes)
  apply Evaluator.evaluate_faultsIn

theorem listPrice_faultsIn :
    FaultsIn (Fault.OfAddon mode evaluator.strict)
      (addon.listPrice evaluator quantity core mode) := by
  unfold listPrice
  split
  · apply FaultsIn.bind
    · apply tableInputs_faultsIn
    intro inputs _
    apply FaultsIn.bind
    · apply evaluate_faultsIn
    intro result _
    exact .ok _
  · apply FaultsIn.bind
    · apply units_faultsIn
    intro units _
    split
    · exact .ok _
    · exact .error trivial

theorem reprice_faultsIn (unitPrice : α) :
    FaultsIn (Fault.OfAddon mode evaluator.strict)
      (addon.reprice evaluator quantity mode unitPrice) := by
  unfold reprice
  split
  · apply FaultsIn.bind
    · apply tableInputs_faultsIn
    intro inputs _
    apply FaultsIn.bind
    · apply evaluate_faultsIn
    intro result _
    exact .ok _
  · apply FaultsIn.bind
    · apply units_faultsIn
    intro units _
    exact .ok _

theorem charge?_faultsIn (selection : Selection α) :
    FaultsIn (Fault.OfAddon mode evaluator.strict)
      (addon.charge? evaluator selection core mode) := by
  unfold charge?
  split
  · exact .ok _
  · apply FaultsIn.bind
    · apply listPrice_faultsIn
    intro prices _
    apply FaultsIn.bind
    · apply PriceFigures.reconcile_faultsIn
      intro unitPrice
      apply reprice_faultsIn
    intro figures _
    exact .ok _

theorem chargeOf_faultsIn (addons : List (Addon α)) (selection : Selection α) :
    FaultsIn (Fault.Escapes mode evaluator.strict)
      (chargeOf evaluator addons core mode selection) := by
  unfold chargeOf
  split
  · exact .ok _
  next addon _ =>
    split
    · exact .ok _
    next hreference =>
      -- An addon without a price has been left out, so what is left is a fault of its table.
      intro fault hfault
      have hescapes := charge?_faultsIn evaluator addon core mode selection fault hfault
      cases fault with
      | missingReference reference => exact (hreference reference hfault).elim
      | _ => exact hescapes

theorem chargeAll_faultsIn (addons : List (Addon α)) (selections : List (Selection α)) :
    FaultsIn (Fault.Escapes mode evaluator.strict)
      (chargeAll evaluator addons selections core mode) := by
  unfold chargeAll
  apply FaultsIn.bind
  · apply FaultsIn.mapM
    intro selection _
    apply chargeOf_faultsIn
  · intro charges _
    exact .ok _

end Addon

namespace Engine

variable (engine : Engine α)

theorem corePrice_faultsIn (table : RateTable α) (quantities : Quantities α)
    (discounts : KeyMap (Discount α)) :
    FaultsIn (Fault.Escapes .exact engine.config.strict)
      (engine.corePrice table quantities discounts) := by
  unfold corePrice
  apply FaultsIn.bind
  · exact engine.evaluator.evaluate_faultsIn table quantities .exact none
  intro result _
  apply FaultsIn.bind
  · apply PriceFigures.reconcile_faultsIn
    intro unitPrice
    unfold reprice
    apply FaultsIn.bind
    · exact engine.evaluator.evaluate_faultsIn table quantities .exact (some unitPrice)
    intro result _
    exact .ok _
  intro pricing _
  exact .ok _

theorem calculate_eq_unknownTier {request : CalculateRequest α}
    (h : engine.model.tier? request.tierId = none) :
    engine.calculate request = .error (.unknownTier request.tierId) := by
  unfold calculate tier
  rw [h]
  rfl

theorem calculate_faultsIn {request : CalculateRequest α} {tier : Tier α}
    (h : engine.model.tier? request.tierId = some tier) :
    FaultsIn (Fault.Escapes .exact engine.config.strict) (engine.calculate request) := by
  unfold calculate Engine.tier
  rw [h]
  apply FaultsIn.bind
  · exact .ok _
  intro tier _
  apply FaultsIn.bind
  · apply corePrice_faultsIn
  intro core _
  apply FaultsIn.bind
  · exact Addon.chargeAll_faultsIn engine.evaluator core.total .exact _ _
  intro addons _
  exact .ok _

theorem calculate_faults_confined (request : CalculateRequest α) :
    (engine.calculate request = .error (.unknownTier request.tierId) ↔
      ∀ tier ∈ engine.model.tiers, tier.id ≠ request.tierId) ∧
    ∀ fault, engine.calculate request = .error fault →
      fault = .unknownTier request.tierId ∨ fault.Escapes .exact engine.config.strict := by
  rw [← PricingModel.tier?_eq_none_iff]
  cases htier : engine.model.tier? request.tierId with
  | none =>
    rw [calculate_eq_unknownTier engine htier]
    refine ⟨by simp, ?_⟩
    rintro fault ⟨⟩
    exact .inl rfl
  | some tier =>
    have hfaults := calculate_faultsIn engine htier
    refine ⟨⟨fun h => (hfaults _ h).elim, by simp⟩, ?_⟩
    intro fault hfault
    exact .inr (hfaults fault hfault)

def growth : Engine Float where
  model := { tiers := [{ id := "growth", name := "Growth", table := .growth }], addons := [] }
  config := { strict := true }
  model_valid := eq_ok_of_isOk (by decide +kernel)
  config_valid := eq_ok_of_isOk (by decide)

def growthGap : CalculateRequest Float where
  tierId := "growth"
  quantities := KeyMap.insert ∅ "range" 100.5

theorem calculate_growthGap_escapes :
    ∃ fault, growth.calculate growthGap = .error fault ∧ fault.Escapes .exact true := by
  have hfails : (growth.calculate growthGap).isOk = false := by decide +kernel
  cases hfault : growth.calculate growthGap with
  | ok response =>
    rw [hfault] at hfails
    cases hfails
  | error fault =>
    have ⟨hunknown, hconfined⟩ := calculate_faults_confined growth growthGap
    refine ⟨fault, rfl, ?_⟩
    rcases hconfined fault hfault with rfl | hescapes
    · have := hunknown.1 hfault _ List.mem_cons_self
      exact (this rfl).elim
    · exact hescapes

end Engine

end Tariff
