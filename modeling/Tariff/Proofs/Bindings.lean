import Tariff.Proofs.DrivingFields
import Tariff.Proofs.Reprice

/-!
This module contains what a formula reads for each name. The bindings are put together map by map;
name by name they come to a fixed precedence, in which no quantity but the looked up one stands
before a number of the row.
-/

namespace Tariff

variable {α : Type} {table : RateTable α} {row : Row α} {quantities quantities' : Quantities α}
  {discounted : Option α}

/--
What a formula that looks up `key` reads for a name: the discounted unit price if the name is the
key of a rate column, the quantity if it is the looked up key, and otherwise the number in the row
before the quantity of that name.
-/
def RateTable.bound? (table : RateTable α) (key : Option String) (row : Row α)
    (quantities : Quantities α) (discounted : Option α) (name : String) : Option α :=
  if discounted.isSome ∧ name ∈ table.rateKeys then
    discounted
  else if key = some name then
    quantities.find? name
  else
    match row.number? name with
    | some number => some number
    | none => quantities.find? name

/--
Two requests have the same quantities where a formula could read them: for its key, and for names
that have no number in its row.
-/
def SameInputs (key : Option String) (row : Row α) (quantities quantities' : Quantities α) : Prop :=
  ∀ name, key = some name ∨ row.number? name = none →
    quantities'.find? name = quantities.find? name

theorem RateTable.bound?_of_sameInputs {key : Option String}
    (h : SameInputs key row quantities quantities') (name : String) :
    table.bound? key row quantities' discounted name =
      table.bound? key row quantities discounted name := by
  unfold bound?
  split
  next => rfl
  next =>
    split
    next hkey => rw [h name (.inl hkey)]
    next =>
      split
      next => rfl
      next hnumber => rw [h name (.inr hnumber)]

namespace Evaluator

theorem find?_withDiscounted_eq_bound? {key : Option String} {bindings : Bindings α}
    (h : ∀ name, bindings.find? name = table.bound? key row quantities none name) (name : String) :
    (withDiscounted table discounted bindings).find? name =
      table.bound? key row quantities discounted name := by
  cases discounted with
  | none => exact h name
  | some rate =>
    rw [find?_withDiscounted, h]
    by_cases hname : name ∈ table.rateKeys
    · simp [RateTable.bound?, hname]
    · simp [RateTable.bound?, hname]

theorem find?_quantities_eq_bound? (name : String) :
    quantities.find? name = table.bound? none ∅ quantities none name := by
  simp [RateTable.bound?, Row.number?, EmptyCollection.emptyCollection, KeyMap.empty, KeyMap.find?]

theorem find?_insert_eq_bound? {key : String} {quantity : α}
    (hquantity : quantities.find? key = some quantity) (name : String) :
    ((row.numbers.orElse quantities).insert key quantity).find? name =
      table.bound? (some key) row quantities none name := by
  rw [KeyMap.find?_insert, KeyMap.find?_orElse, Row.find?_numbers]
  unfold RateTable.bound?
  by_cases hname : name = key
  · simp [hname, hquantity]
  · cases row.number? name <;> simp [hname, Ne.symm hname]

variable [Amount α] {formula : Formula α} {mode : Mode}

theorem formulaValue_of_formulaRow?
    (hrow : table.formulaRow? formula quantities mode = some row) (discounted : Option α) :
    ∃ bindings : Bindings α,
      (∀ name, bindings.find? name =
        table.bound? formula.key row quantities discounted name) ∧
      formulaValue table formula quantities mode discounted =
        (formula.expr.evaluate bindings).mapError .expression := by
  unfold RateTable.formulaRow? at hrow
  unfold formulaValue
  cases hkey : formula.key with
  | none =>
    rw [hkey] at hrow
    cases hrow
    exact ⟨_, find?_withDiscounted_eq_bound? find?_quantities_eq_bound?, rfl⟩
  | some key =>
    simp only [hkey, Option.bind_eq_bind, Option.bind_eq_some_iff, Option.pure_def,
      Option.some.injEq] at hrow
    obtain ⟨quantity, hquantity, hit, hhit, rfl⟩ := hrow
    have hresolve : table.resolve key quantity mode = .ok (some hit) := by
      cases hresolve : table.resolve key quantity mode with
      | error fault => simp [hresolve, Except.toOption] at hhit
      | ok hit? => simpa [hresolve, Except.toOption] using hhit
    refine ⟨_, find?_withDiscounted_eq_bound? (find?_insert_eq_bound? hquantity), ?_⟩
    dsimp only
    rw [required_eq_ok_iff.2 hquantity, ok_bind, hresolve, ok_bind]

theorem formulaRow?_of_sameInputs (h : SameInputs formula.key row quantities quantities')
    (hrow : table.formulaRow? formula quantities mode = some row) :
    table.formulaRow? formula quantities' mode = some row := by
  unfold RateTable.formulaRow? at *
  cases hkey : formula.key with
  | none => simpa [hkey] using hrow
  | some key =>
    rw [hkey] at hrow
    rw [← hrow]
    dsimp only
    rw [h key (.inl hkey)]

theorem columnValue_of_formula {column : Column} {text : String} (hscript : column.script = none)
    (htext : column.formula = some text) (hparse : Formula.parse text = .ok formula)
    (evaluator : Evaluator) (quantities : Quantities α) (mode : Mode) (discounted : Option α) :
    evaluator.columnValue table column quantities mode discounted =
      formulaValue table formula quantities mode discounted := by
  unfold columnValue
  simp only [hscript, htext, hparse]
  rfl

theorem columnValue_reads_by_precedence {column : Column} {text : String}
    (hscript : column.script = none) (htext : column.formula = some text)
    (hparse : Formula.parse text = .ok formula)
    (hrow : table.formulaRow? formula quantities mode = some row) (evaluator : Evaluator)
    (discounted : Option α) :
    (∃ bindings : Bindings α,
      (∀ name, bindings.find? name =
        table.bound? formula.key row quantities discounted name) ∧
      evaluator.columnValue table column quantities mode discounted =
        (formula.expr.evaluate bindings).mapError .expression) ∧
    ∀ quantities', SameInputs formula.key row quantities quantities' →
      evaluator.columnValue table column quantities' mode discounted =
        evaluator.columnValue table column quantities mode discounted := by
  simp only [columnValue_of_formula hscript htext hparse]
  obtain ⟨bindings, hbindings, hvalue⟩ := formulaValue_of_formulaRow? hrow discounted
  refine ⟨⟨bindings, hbindings, hvalue⟩, ?_⟩
  intro quantities' hsame
  obtain ⟨bindings', hbindings', hvalue'⟩ :=
    formulaValue_of_formulaRow? (formulaRow?_of_sameInputs hsame hrow) discounted
  have heq : bindings' = bindings := by
    apply KeyMap.ext_find?
    intro name
    rw [hbindings', hbindings, RateTable.bound?_of_sameInputs hsame]
  rw [hvalue', hvalue, heq]

def growthPrice : Column :=
  .output "Price" "price" "lookup(range)\x7brate*range\x7d"

/--
A request that names a rate of its own beside the quantity.
-/
def ownRate (rate : Float) : Quantities Float :=
  KeyMap.insert ∅ "range" 150 |>.insert "rate" rate

theorem columnValue_growth_ownRate :
    growthPrice ∈ RateTable.growth.outputColumns ∧
    ∃ (formula : Formula Float) (row : Row Float),
      Formula.parse "lookup(range)\x7brate*range\x7d" = .ok formula ∧
      RateTable.growth.formulaRow? formula (ownRate 0.01) .exact = some row ∧
      (∃ bindings : Bindings Float,
        (∀ name, bindings.find? name =
          RateTable.growth.bound? formula.key row (ownRate 0.01) none name) ∧
        ({} : Evaluator).columnValue .growth growthPrice (ownRate 0.01) .exact none =
          (formula.expr.evaluate bindings).mapError .expression) ∧
      ({} : Evaluator).columnValue .growth growthPrice (ownRate 100) .exact none =
        ({} : Evaluator).columnValue .growth growthPrice (ownRate 0.01) .exact none := by
  obtain ⟨formula, hparse, h⟩ := exists_ok_of_any
    (p := fun formula : Formula Float => formula.key == some "range" &&
      (RateTable.growth.formulaRow? formula (ownRate 0.01) .exact).any
        fun row => (row.number? "rate").isSome)
    (x := Formula.parse "lookup(range)\x7brate*range\x7d") (by decide +kernel)
  simp only [Bool.and_eq_true, beq_iff_eq, Option.any_eq_true] at h
  obtain ⟨hkey, row, hrow, hrate⟩ := h
  have hscript : growthPrice.script = none := rfl
  have hreads := columnValue_reads_by_precedence hscript rfl hparse hrow {} none
  refine ⟨.head _, formula, row, hparse, hrow, hreads.1, hreads.2 _ ?_⟩
  intro name hname
  rw [hkey] at hname
  have hne : name ≠ "rate" := by
    rintro rfl
    rcases hname with hname | hname
    · simp at hname
    · simp [hname] at hrate
  simp [ownRate, hne]

end Evaluator

end Tariff
