import Tariff.Proofs.Lookup
import Tariff.Proofs.RowOrder

/-!
This module contains the conditions a rate table has to meet, said without the order in which they
are checked, and the proof that the checks refuse exactly the tables that miss one of them.
-/

namespace Tariff

namespace RateTable

variable {α : Type}

def Has (table : RateTable α) (key : String) (kinds : List ColumnKind) : Prop :=
  ∃ column ∈ table.columns, column.key = key ∧ column.kind ∈ kinds

end RateTable

/--
The columns that a script names exist and are of kinds that it can use.
-/
def Script.Fits {α : Type} (table : RateTable α) : Script → Prop
  | threePartCurve thresholdKey feeKey overageKey =>
    table.Has thresholdKey [.threshold] ∧ table.Has feeKey [.rate, .fee] ∧
      table.Has overageKey [.rate, .fee]
  | graduated rangeKey rateKey =>
    table.Has rangeKey [.metricRange, .threshold] ∧ table.Has rateKey [.rate, .fee]

namespace RateTable

variable {α : Type} [Amount α]

/--
The conditions a rate table has to meet.
-/
structure WellFormed (table : RateTable α) : Prop where
  keys : (table.columns.map (·.key)).Nodup
  ordered : table.Ordered
  roles : table.columns.Pairwise fun a b =>
    a.kind = .output → b.kind = .output → a.role = b.role → a.role = none
  /-- A formula with a lookup key looks up a column that selects rows. -/
  formulas : ∀ column ∈ table.columns, column.kind = .output →
    ∀ text, column.formula = some text →
    ∀ formula : Formula α, Formula.parse text = .ok formula →
    ∀ key, formula.key = some key → table.Has key [.metricRange, .threshold]
  scripts : ∀ column ∈ table.columns, column.kind = .output →
    ∀ script, column.script = some script → script.Fits table

end RateTable

section Columns

variable {α : Type} {table : RateTable α} {key : String} {kinds : List ColumnKind}

theorem RateTable.has_iff (hkeys : (table.columns.map (·.key)).Nodup) :
    table.Has key kinds ↔ ∃ kind, table.kind? key = some kind ∧ kind ∈ kinds := by
  unfold Has kind?
  constructor
  · rintro ⟨column, hmem, rfl, hkind⟩
    exact ⟨column.kind, by rw [column?_eq_some_of_mem hkeys hmem]; rfl, hkind⟩
  · rintro ⟨kind, hkind, hmem⟩
    obtain ⟨column, hcolumn, rfl⟩ := Option.map_eq_some_iff.1 hkind
    obtain ⟨hcolumn, hkey⟩ := mem_columns_of_column? hcolumn
    exact ⟨column, hcolumn, hkey, hmem⟩

theorem RateTable.isLookup_iff (hkeys : (table.columns.map (·.key)).Nodup) :
    table.isLookup key = true ↔ table.Has key [.metricRange, .threshold] := by
  rw [has_iff hkeys]
  unfold isLookup
  cases table.kind? key with
  | none => simp
  | some kind => cases kind <;> simp [ColumnKind.isLookup]

theorem Script.requireValue_eq_ok_iff (hkeys : (table.columns.map (·.key)).Nodup) :
    validate.requireValue table key = .ok () ↔ table.Has key [.rate, .fee] := by
  rw [RateTable.has_iff hkeys]
  unfold validate.requireValue
  cases table.kind? key with
  | none => simp
  | some kind => cases kind <;> simp [ColumnKind.isValue]

theorem Script.validate_eq_ok_iff (hkeys : (table.columns.map (·.key)).Nodup) (script : Script) :
    script.validate table = .ok () ↔ script.Fits table := by
  unfold validate Fits
  simp only [← requireValue_eq_ok_iff hkeys]
  cases script with
  | threePartCurve thresholdKey feeKey overageKey =>
    dsimp only
    rw [RateTable.has_iff hkeys]
    by_cases hkind : table.kind? thresholdKey = some .threshold
    · simp [hkind, bind_eq_ok_iff]
    · have hrefused : (table.kind? thresholdKey != some .threshold) = true := bne_iff_ne.2 hkind
      simp only [hrefused, ↓reduceIte, List.mem_singleton, exists_eq_right, hkind, false_and,
        iff_false]
      intro h
      cases h
  | graduated rangeKey rateKey =>
    dsimp only
    rw [← RateTable.isLookup_iff hkeys]
    cases table.isLookup rangeKey with
    | false =>
      simp only [Bool.not_false, ↓reduceIte, Bool.false_eq_true, false_and, iff_false]
      intro h
      cases h
    | true => simp

end Columns

namespace RateTable

variable {α : Type} {table : RateTable α}

theorem length_le_one_iff {β : Type} {xs : List β} :
    xs.length ≤ 1 ↔ xs.Pairwise fun _ _ => False := by
  match xs with
  | [] => simp
  | [x] => simp
  | x :: y :: xs =>
    constructor
    · intro h
      simp at h
    · intro h
      exact (List.rel_of_pairwise_cons h (.head _)).elim

theorem checkScript_eq_ok_iff (hkeys : (table.columns.map (·.key)).Nodup) (column : Column) :
    table.checkScript column = .ok () ↔ ∀ script, column.script = some script →
      script.Fits table := by
  unfold checkScript
  cases column.script with
  | none => simp
  | some script =>
    simp only [Option.some.injEq, forall_eq', ← script.validate_eq_ok_iff hkeys]
    cases script.validate table <;> simp [Except.mapError]

theorem checkRole_eq_ok_iff (role : Role) :
    table.checkRole role = .ok () ↔ table.columns.Pairwise fun a b =>
      a.kind = .output → b.kind = .output → a.role = some role → b.role ≠ some role := by
  have hlength : table.checkRole role = .ok () ↔
      (table.outputColumns.filter (·.role == some role)).length ≤ 1 := by
    unfold checkRole
    split <;> simp <;> omega
  rw [hlength, length_le_one_iff, outputColumns, List.pairwise_filter, List.pairwise_filter]
  simp only [beq_iff_eq, ne_eq]

theorem checkRoles_iff :
    table.checkRole .total = .ok () ∧ table.checkRole .unitPrice = .ok () ↔
      table.columns.Pairwise fun a b =>
        a.kind = .output → b.kind = .output → a.role = b.role → a.role = none := by
  rw [checkRole_eq_ok_iff, checkRole_eq_ok_iff, ← List.pairwise_and_iff]
  constructor
  · apply List.Pairwise.imp
    rintro a b ⟨htotal, hunitPrice⟩ ha hb hrole
    cases hrole' : a.role with
    | none => rfl
    | some role =>
      rw [hrole'] at hrole
      cases role with
      | total => exact absurd hrole.symm (htotal ha hb hrole')
      | unitPrice => exact absurd hrole.symm (hunitPrice ha hb hrole')
  · apply List.Pairwise.imp
    intro a b h
    constructor
    all_goals
      intro ha hb hrole hrole'
      have := h ha hb (hrole.trans hrole'.symm)
      rw [hrole] at this
      cases this

variable [Amount α]

theorem checkFormula_eq_ok_iff (hkeys : (table.columns.map (·.key)).Nodup) (column : Column) :
    table.checkFormula column = .ok () ↔ ∀ text, column.formula = some text →
      ∀ formula : Formula α, Formula.parse text = .ok formula →
      ∀ key, formula.key = some key → table.Has key [.metricRange, .threshold] := by
  simp only [← isLookup_iff hkeys]
  unfold checkFormula
  cases column.formula with
  | none => simp
  | some text =>
    cases hparse : Formula.parse (α := α) text with
    | error error => simp [hparse]
    | ok formula =>
      obtain ⟨_ | key, body, expr⟩ := formula
      · simp [hparse]
      · cases hlookup : table.isLookup key <;> simp [hparse, hlookup]

theorem checkLookupColumns_iff_ordered [LawfulAmount α] (hdefined : table.BoundsDefined) :
    (∀ column ∈ table.lookupColumns, table.checkLookupColumn column = .ok ()) ↔ table.Ordered := by
  rw [checkLookupColumns_iff]
  apply forall₂_congr
  intro column hmem
  obtain ⟨hranges, hthresholds⟩ := hdefined column hmem
  apply and_congr
  · apply forall_congr'
    intro hkind
    exact checkRanges_iff_rangesAscend (hranges hkind)
  · apply forall_congr'
    intro hkind
    exact checkThresholds_iff_thresholdsAscend (hthresholds hkind)

theorem checkOutputs_iff (hkeys : (table.columns.map (·.key)).Nodup) :
    (∀ column ∈ table.outputColumns,
      table.checkFormula column = .ok () ∧ table.checkScript column = .ok ()) ↔
    (∀ column ∈ table.columns, column.kind = .output →
      ∀ text, column.formula = some text →
      ∀ formula : Formula α, Formula.parse text = .ok formula →
      ∀ key, formula.key = some key → table.Has key [.metricRange, .threshold]) ∧
    ∀ column ∈ table.columns, column.kind = .output →
      ∀ script, column.script = some script → script.Fits table := by
  simp only [outputColumns, List.mem_filter, beq_iff_eq, and_imp, checkFormula_eq_ok_iff hkeys,
    checkScript_eq_ok_iff hkeys]
  constructor
  · intro h
    exact ⟨fun column hmem hkind => (h column hmem hkind).1,
      fun column hmem hkind => (h column hmem hkind).2⟩
  · intro h column hmem hkind
    exact ⟨h.1 column hmem hkind, h.2 column hmem hkind⟩

theorem validate_eq_ok_iff_wellFormed [LawfulAmount α] (hdefined : table.BoundsDefined) :
    (table.validate = .ok () ↔ table.WellFormed) ∧
    (¬table.WellFormed → ∃ fault, table.validate = .error fault) := by
  have hexact : table.validate = .ok () ↔ table.WellFormed := by
    rw [validate_eq_ok_iff, checkLookupColumns_iff_ordered hdefined]
    constructor
    · rintro ⟨hkeys, hordered, htotal, hunitPrice, houtputs⟩
      obtain ⟨hformulas, hscripts⟩ := (checkOutputs_iff hkeys).1 houtputs
      exact ⟨hkeys, hordered, checkRoles_iff.1 ⟨htotal, hunitPrice⟩, hformulas, hscripts⟩
    · rintro ⟨hkeys, hordered, hroles, hformulas, hscripts⟩
      obtain ⟨htotal, hunitPrice⟩ := checkRoles_iff.2 hroles
      exact ⟨hkeys, hordered, htotal, hunitPrice,
        (checkOutputs_iff hkeys).2 ⟨hformulas, hscripts⟩⟩
  refine ⟨hexact, fun hmissed => ?_⟩
  cases hvalidate : table.validate with
  | error fault => exact ⟨fault, rfl⟩
  | ok => exact absurd (hexact.1 hvalidate) hmissed

/--
A table that uses all kinds of columns.
-/
def quotas : RateTable Float where
  columns := [
    usage,
    quota,
    { name := "Fee", key := "fee", kind := .fee },
    { name := "Rate", key := "rate", kind := .rate },
    { Column.output "Price" "price" "lookup(usage)\x7bfee + rate*usage\x7d" with
      role := some .total },
    .scripted "Capped" "capped" (.threePartCurve "upto" "fee" "rate"),
    .scripted "Stepped" "stepped" (.graduated "usage" "rate")]
  rows := [
    Row.insert ∅ "usage" (.range ⟨0, 10⟩) |>.insert "upto" (.number 5) |>.insert "fee" (.number 1)
      |>.insert "rate" (.number 3),
    Row.insert ∅ "usage" (.range ⟨10, 40⟩) |>.insert "upto" (.number 8) |>.insert "fee" (.number 2)
      |>.insert "rate" (.number 2)]

theorem validate_quotas_wellFormed :
    quotas.BoundsDefined ∧ quotas.validate = .ok () ∧ quotas.WellFormed := by
  have hdefined : quotas.BoundsDefined := by decide +kernel
  have hvalidate : quotas.validate = .ok () := eq_ok_of_isOk (by decide +kernel)
  exact ⟨hdefined, hvalidate, (validate_eq_ok_iff_wellFormed hdefined).1.1 hvalidate⟩

end RateTable

end Tariff
