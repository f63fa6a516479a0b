import Tariff.Proofs.Agreement
import Tariff.Proofs.Confinement

/-!
This module contains how the two modes of pricing compare: a price that is quoted for a quantity is
the price on the curve, unless a script caps it there, and a curve never fails.
-/

namespace Tariff

variable {α : Type} [Amount α]

theorem RateTable.resolve_curve_agrees (table : RateTable α) (key : String) (quantity : α) :
    AgreesUnlessMiss (table.resolve key quantity .exact) (table.resolve key quantity .curve) := by
  apply resolve_agrees rfl
  intro column hit _ _ hhit
  exact hhit

theorem Script.graduated_curve_agrees (table : RateTable α) (rangeKey rateKey : String)
    (quantity : α) (budget : Nat) (discounted : Option α) :
    AgreesUnlessMiss ((graduated rangeKey rateKey).evaluate table quantity .exact budget discounted)
      ((graduated rangeKey rateKey).evaluate table quantity .curve budget discounted) := by
  unfold evaluate
  apply AgreesUnlessMiss.bind (table.resolve_curve_agrees rangeKey quantity)
  intro hit? _
  exact .refl _

namespace Evaluator

theorem columnValue_curve_agrees (evaluator : Evaluator) (table : RateTable α) {column : Column}
    (hscript : ∀ thresholdKey feeKey overageKey,
      column.script ≠ some (.threePartCurve thresholdKey feeKey overageKey))
    (quantities : Quantities α) (discounted : Option α) :
    AgreesUnlessMiss (evaluator.columnValue table column quantities .exact discounted)
      (evaluator.columnValue table column quantities .curve discounted) := by
  apply columnValue_agrees rfl
  · intro key quantity _
    exact table.resolve_curve_agrees key quantity
  · intro script quantity hcolumn _
    cases script with
    | threePartCurve thresholdKey feeKey overageKey => exact (hscript _ _ _ hcolumn).elim
    | graduated rangeKey rateKey => apply Script.graduated_curve_agrees

theorem evaluate_curve_of_exact (table : RateTable α) :
    ((∀ column ∈ table.outputColumns, ∀ thresholdKey feeKey overageKey,
        column.script ≠ some (.threePartCurve thresholdKey feeKey overageKey)) →
      ∀ (evaluator : Evaluator) (quantities : Quantities α) (discounted : Option α)
        (result : PriceResult α),
        evaluator.evaluate table quantities .exact discounted = .ok result →
        evaluator.evaluate table quantities .curve discounted = .ok result) ∧
    ∀ (evaluator : Evaluator) (quantities : Quantities α) (discounted : Option α),
      evaluator.strict = false →
      ∃ result, evaluator.evaluate table quantities .curve discounted = .ok result := by
  constructor
  · intro hscripts evaluator quantities discounted result hresult
    have hagrees : AgreesUnlessMiss (evaluator.evaluate table quantities .exact discounted)
        (evaluator.evaluate table quantities .curve discounted) := by
      apply evaluate_agrees rfl
      intro column hcolumn
      exact evaluator.columnValue_curve_agrees table (hscripts column hcolumn) quantities discounted
    exact hagrees.ok hresult
  · intro evaluator quantities discounted hstrict
    have hfaults := evaluate_faultsIn evaluator table quantities .curve discounted
    apply FaultsIn.exists_ok
    refine FaultsIn.imp ?_ hfaults
    intro fault hfault
    cases fault <;> simp [Fault.Escapes, hstrict] at hfault

theorem evaluate_curve_growth :
    (∃ result,
      ({ strict := true } : Evaluator).evaluate .growth (KeyMap.insert ∅ "range" 150) .exact
        (some 4) = .ok result ∧
      ({ strict := true } : Evaluator).evaluate .growth (KeyMap.insert ∅ "range" 150) .curve
        (some 4) = .ok result ∧
      (result.total == 600) = true) ∧
    ∃ result,
      ({ strict := false } : Evaluator).evaluate .growth (KeyMap.insert ∅ "range" 500) .curve none =
        .ok result := by
  have ⟨hcurve, hlenient⟩ := evaluate_curve_of_exact RateTable.growth
  refine ⟨?_, hlenient _ _ _ rfl⟩
  obtain ⟨result, hresult, htotal⟩ := exists_ok_of_any (p := (·.total == 600))
    (x := ({ strict := true } : Evaluator).evaluate .growth (KeyMap.insert ∅ "range" 150) .exact
      (some 4)) (by decide +kernel)
  refine ⟨result, hresult, ?_, htotal⟩
  apply hcurve
  · simp [RateTable.outputColumns, RateTable.growth, Column.output]
  · exact hresult

end Evaluator

end Tariff
