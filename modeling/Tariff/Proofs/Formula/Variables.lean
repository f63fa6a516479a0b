import Tariff.Formula.Eval
import Tariff.Proofs.Fault

/-!
This module contains what the value of an expression depends on: the values of the variables it
lists, and nothing else. It lists each of them once, and it has no other fault for want of a value.
-/

namespace Tariff.Formula

variable {α : Type}

namespace Expr

mutual

theorem subset_addNames (expr : Expr α) (names : List String) : names ⊆ expr.addNames names := by
  match expr with
  | number _ => exact List.Subset.refl _
  | var name =>
    unfold addNames
    split
    · exact List.Subset.refl _
    · exact List.subset_append_left ..
  | neg operand => exact operand.subset_addNames names
  | not operand => exact operand.subset_addNames names
  | binary _ left right =>
    apply List.Subset.trans (left.subset_addNames names)
    exact right.subset_addNames _
  | call _ arguments => exact subset_addAllNames arguments names
  | choose condition whenTrue whenFalse =>
    apply List.Subset.trans (condition.subset_addNames names)
    apply List.Subset.trans (whenTrue.subset_addNames _)
    exact whenFalse.subset_addNames _

theorem subset_addAllNames (exprs : List (Expr α)) (names : List String) :
    names ⊆ addAllNames exprs names := by
  match exprs with
  | [] => exact List.Subset.refl _
  | expr :: exprs =>
    apply List.Subset.trans (expr.subset_addNames names)
    exact subset_addAllNames exprs _

end

mutual

theorem nodup_addNames (expr : Expr α) {names : List String} (h : names.Nodup) :
    (expr.addNames names).Nodup := by
  match expr with
  | number _ => exact h
  | var name =>
    unfold addNames
    split
    next => exact h
    next hnew =>
      refine List.nodup_append.2 ⟨h, List.pairwise_singleton _ name, ?_⟩
      intro other hmem last hlast heq
      rw [heq, List.mem_singleton.1 hlast] at hmem
      exact hnew hmem
  | neg operand => exact operand.nodup_addNames h
  | not operand => exact operand.nodup_addNames h
  | binary _ left right => exact right.nodup_addNames (left.nodup_addNames h)
  | call _ arguments => exact nodup_addAllNames arguments h
  | choose condition whenTrue whenFalse =>
    apply whenFalse.nodup_addNames
    apply whenTrue.nodup_addNames
    exact condition.nodup_addNames h

theorem nodup_addAllNames (exprs : List (Expr α)) {names : List String} (h : names.Nodup) :
    (addAllNames exprs names).Nodup := by
  match exprs with
  | [] => exact h
  | expr :: exprs => exact nodup_addAllNames exprs (expr.nodup_addNames h)

end

theorem nodup_identifiers (expr : Expr α) : expr.identifiers.Nodup :=
  expr.nodup_addNames List.nodup_nil

theorem mem_addNames_var (name : String) (names : List String) :
    name ∈ (var name : Expr α).addNames names := by
  unfold addNames
  split
  next hmem => exact hmem
  next => simp

variable [Amount α] {bindings bindings' : Bindings α}

mutual

-- The names found before are carried along, so that every operand is met with the list it extends.
theorem value_congr (expr : Expr α) (names : List String)
    (h : ∀ name ∈ expr.addNames names, bindings.find? name = bindings'.find? name) :
    expr.value bindings = expr.value bindings' := by
  match expr with
  | number _ => rfl
  | var name =>
    unfold value
    rw [h name (mem_addNames_var name names)]
  | neg operand =>
    unfold value
    rw [value_congr operand names h]
  | not operand =>
    unfold value
    rw [value_congr operand names h]
  | binary op left right =>
    have hleft := value_congr left names fun name hname =>
      h name (right.subset_addNames _ hname)
    have hright := value_congr right (left.addNames names) h
    unfold value
    rw [hleft, hright]
  | call function arguments =>
    unfold value
    rw [values_congr arguments names h]
  | choose condition whenTrue whenFalse =>
    have hcondition := value_congr condition names fun name hname =>
      h name (whenFalse.subset_addNames _ (whenTrue.subset_addNames _ hname))
    have htrue := value_congr whenTrue (condition.addNames names) fun name hname =>
      h name (whenFalse.subset_addNames _ hname)
    have hfalse := value_congr whenFalse (whenTrue.addNames (condition.addNames names)) h
    unfold value
    rw [hcondition, htrue, hfalse]

theorem values_congr (exprs : List (Expr α)) (names : List String)
    (h : ∀ name ∈ addAllNames exprs names, bindings.find? name = bindings'.find? name) :
    values bindings exprs = values bindings' exprs := by
  match exprs with
  | [] => rfl
  | expr :: exprs =>
    have hfirst := value_congr expr names fun name hname =>
      h name (subset_addAllNames exprs _ hname)
    have hothers := values_congr exprs (expr.addNames names) h
    unfold values
    rw [hfirst, hothers]

end

theorem evaluate_congr {expr : Expr α}
    (h : ∀ name ∈ expr.identifiers, bindings.find? name = bindings'.find? name) :
    expr.evaluate bindings = expr.evaluate bindings' := by
  unfold evaluate
  rw [value_congr expr [] h]

end Expr

section Faults

variable [Amount α] {p : ExpressionFault α → Prop} {bindings : Bindings α}

theorem Operator.apply_faultsIn (hdivision : p .divisionByZero) (op : Operator) (left right : α) :
    FaultsIn p (op.apply left right) := by
  cases op with
  | div =>
    rw [apply]
    split
    · exact .error hdivision
    · exact .ok _
  | _ => exact .ok _

namespace Expr

mutual

theorem value_faultsIn (hdivision : p .divisionByZero) (expr : Expr α) (names : List String)
    (hnames : ∀ name ∈ expr.addNames names, bindings.find? name = none → p (.unknownName name)) :
    FaultsIn p (expr.value bindings) := by
  match expr with
  | number _ => exact .ok _
  | var name =>
    unfold value
    split
    next => exact .ok _
    next hnone => exact .error (hnames name (mem_addNames_var name names) hnone)
  | neg operand | not operand =>
    apply FaultsIn.bind (operand.value_faultsIn hdivision names hnames)
    intro x _
    exact .ok _
  | binary op left right =>
    apply FaultsIn.bind
    · apply left.value_faultsIn hdivision names
      intro name hname
      exact hnames name (right.subset_addNames _ hname)
    intro x _
    split
    · exact .ok _
    · apply FaultsIn.bind (right.value_faultsIn hdivision (left.addNames names) hnames)
      intro y _
      exact op.apply_faultsIn hdivision x y
  | call function arguments =>
    apply FaultsIn.bind (values_faultsIn hdivision arguments names hnames)
    intro xs _
    exact .ok _
  | choose condition whenTrue whenFalse =>
    apply FaultsIn.bind
    · apply condition.value_faultsIn hdivision names
      intro name hname
      exact hnames name (whenFalse.subset_addNames _ (whenTrue.subset_addNames _ hname))
    intro x _
    split
    · apply whenTrue.value_faultsIn hdivision (condition.addNames names)
      intro name hname
      exact hnames name (whenFalse.subset_addNames _ hname)
    · exact whenFalse.value_faultsIn hdivision _ hnames

theorem values_faultsIn (hdivision : p .divisionByZero) (exprs : List (Expr α))
    (names : List String)
    (hnames : ∀ name ∈ addAllNames exprs names,
      bindings.find? name = none → p (.unknownName name)) :
    FaultsIn p (values bindings exprs) := by
  match exprs with
  | [] => exact .ok _
  | expr :: exprs =>
    apply FaultsIn.bind
    · apply expr.value_faultsIn hdivision names
      intro name hname
      exact hnames name (subset_addAllNames exprs _ hname)
    intro x _
    apply FaultsIn.bind (values_faultsIn hdivision exprs (expr.addNames names) hnames)
    intro xs _
    exact .ok _

end

theorem evaluate_faultsIn (hdivision : p .divisionByZero) (hfinite : ∀ x, p (.notFinite x))
    {expr : Expr α}
    (hnames : ∀ name ∈ expr.identifiers,
      bindings.find? name = none → p (.unknownName name)) :
    FaultsIn p (expr.evaluate bindings) := by
  apply FaultsIn.bind (expr.value_faultsIn hdivision [] hnames)
  intro x _
  split
  · exact .ok _
  · exact .error (hfinite x)

theorem evaluate_ne_unknownName {expr : Expr α}
    (h : ∀ name ∈ expr.identifiers, bindings.contains name = true) (name : String) :
    expr.evaluate bindings ≠ .error (.unknownName name) := by
  intro hfault
  apply expr.evaluate_faultsIn (p := (· ≠ .unknownName name)) nofun nofun ?_ _ hfault rfl
  intro other hother hnone
  have hbound := h other hother
  rw [KeyMap.contains, hnone] at hbound
  cases hbound

/--
Evaluation reads the listed variables, each of which is listed once, and nothing else. Bindings that
agree on them have the same outcome, and if all of them are bound, no variable is found to have no
value.
-/
theorem evaluate_reads_identifiers (expr : Expr α) :
    expr.identifiers.Nodup ∧
    (∀ bindings bindings' : Bindings α,
      (∀ name ∈ expr.identifiers, bindings.find? name = bindings'.find? name) →
      expr.evaluate bindings = expr.evaluate bindings') ∧
    (∀ bindings : Bindings α, (∀ name ∈ expr.identifiers, bindings.contains name = true) →
      ∀ name, expr.evaluate bindings ≠ .error (.unknownName name)) :=
  ⟨expr.nodup_identifiers, fun _ _ => evaluate_congr, fun _ => evaluate_ne_unknownName⟩

/--
A formula that reads some of its variables twice, and not all of them for every quantity:
`if fee > 0 and units > fee then units / fee else max(units, floor)`.
-/
def perFee : Expr Float :=
  .choose
    (.binary .and (.binary .gt (.var "fee") (.number 0)) (.binary .gt (.var "units") (.var "fee")))
    (.binary .div (.var "units") (.var "fee"))
    (.call .max [.var "units", .var "floor"])

theorem evaluate_perFee_reads :
    perFee.identifiers = ["fee", "units", "floor"] ∧
    perFee.identifiers.Nodup ∧
    perFee.evaluate (.ofList [("fee", 2), ("floor", 9), ("units", 4)]) =
      perFee.evaluate (.ofList [("fee", 2), ("floor", 9), ("rate", 7), ("units", 4)]) ∧
    ∀ name, perFee.evaluate (.ofList [("fee", 2), ("floor", 9), ("units", 4)]) ≠
      .error (.unknownName name) := by
  obtain ⟨hnodup, hcongr, hbound⟩ := perFee.evaluate_reads_identifiers
  have hnames : perFee.identifiers = ["fee", "units", "floor"] := by decide +kernel
  rw [hnames] at hcongr hbound
  exact ⟨hnames, hnodup, hcongr _ _ (by decide +kernel), hbound _ (by decide +kernel)⟩

end Expr

end Faults

end Tariff.Formula
