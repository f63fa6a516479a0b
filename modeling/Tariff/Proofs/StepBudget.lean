import Tariff.Proofs.Confinement

/-!
This module contains how many steps a script needs. With fewer it runs out, and with as many its
result is always the same, so a larger budget never changes a price.
-/

namespace Tariff

variable {α β γ : Type}

def NeverRunsOut (x : Except (Fault α) β) : Prop :=
  ∀ limit, x ≠ .error (.budgetExceeded limit)

theorem NeverRunsOut.of_faultsIn {x : Except (Fault α) β} {mode : Mode}
    (h : FaultsIn (Fault.OfColumn mode false) x) : NeverRunsOut x := by
  intro limit heq
  cases h _ heq

theorem NeverRunsOut.ok (b : β) : NeverRunsOut (.ok b : Except (Fault α) β) := by
  rintro limit ⟨⟩

theorem NeverRunsOut.error {fault : Fault α}
    (h : NeverRunsOut (.error fault : Except (Fault α) γ)) :
    NeverRunsOut (.error fault : Except (Fault α) β) := by
  rintro limit ⟨⟩
  exact h limit rfl

/--
A calculation needs a certain number of steps, at most `bound`. With a smaller budget it runs out,
and with every other one it has the same result.
-/
def Sharp (bound : Nat) (run : (budget : Nat) → Except (Fault α) β) : Prop :=
  ∃ needed ≤ bound, ∃ result, NeverRunsOut result ∧
    (∀ budget < needed, run budget = .error (.budgetExceeded budget)) ∧
    ∀ budget ≥ needed, run budget = result

/--
The same of a calculation in progress, which knows the limit and how many steps are left.
-/
def SharpWithin (bound : Nat) (run : (limit left : Nat) → Except (Fault α) β) : Prop :=
  ∃ needed ≤ bound, ∃ result, NeverRunsOut result ∧
    (∀ limit left, left < needed → run limit left = .error (.budgetExceeded limit)) ∧
    ∀ limit left, needed ≤ left → run limit left = result

namespace Sharp

theorem fixed (bound : Nat) {x : Except (Fault α) β} (h : NeverRunsOut x) :
    Sharp bound fun _ => x :=
  ⟨0, Nat.zero_le bound, x, h, fun budget hlt => absurd hlt (Nat.not_lt_zero budget),
    fun _ _ => rfl⟩

theorem bind {bound : Nat} {x : Except (Fault α) γ}
    {run : γ → (budget : Nat) → Except (Fault α) β} (hx : NeverRunsOut x)
    (h : ∀ c, x = .ok c → Sharp bound (run c)) :
    Sharp bound fun budget => x >>= fun c => run c budget := by
  cases x with
  | error fault => exact fixed bound hx.error
  | ok c => exact h c rfl

end Sharp

namespace SharpWithin

variable {bound bound' : Nat} {run : (limit left : Nat) → Except (Fault α) β}

theorem fixed (bound : Nat) {x : Except (Fault α) β} (h : NeverRunsOut x) :
    SharpWithin bound fun _ _ => x :=
  ⟨0, Nat.zero_le bound, x, h, fun _ left hlt => absurd hlt (Nat.not_lt_zero left),
    fun _ _ _ => rfl⟩

theorem mono (h : SharpWithin bound run) (hle : bound ≤ bound') : SharpWithin bound' run := by
  obtain ⟨needed, hneeded, h⟩ := h
  exact ⟨needed, Nat.le_trans hneeded hle, h⟩

theorem bind {x : Except (Fault α) γ} {run : γ → (limit left : Nat) → Except (Fault α) β}
    (hx : NeverRunsOut x) (h : ∀ c, x = .ok c → SharpWithin bound (run c)) :
    SharpWithin bound fun limit left => x >>= fun c => run c limit left := by
  cases x with
  | error fault => exact fixed bound hx.error
  | ok c => exact h c rfl

theorem step (h : SharpWithin bound run) :
    SharpWithin (bound + 1) fun limit left => Script.step limit left >>= run limit := by
  obtain ⟨needed, hneeded, result, hresult, hshort, henough⟩ := h
  refine ⟨needed + 1, Nat.add_le_add_right hneeded 1, result, hresult, ?_, ?_⟩
  · intro limit left hlt
    cases left with
    | zero => rfl
    | succ left => exact hshort limit left (Nat.lt_of_add_lt_add_right hlt)
  · intro limit left hle
    cases left with
    | zero => exact absurd hle (Nat.not_succ_le_zero needed)
    | succ left => exact henough limit left (Nat.le_of_add_le_add_right hle)

theorem sharp (h : SharpWithin bound run) : Sharp bound fun budget => run budget budget := by
  obtain ⟨needed, hneeded, result, hresult, hshort, henough⟩ := h
  exact ⟨needed, hneeded, result, hresult, fun budget => hshort budget budget,
    fun budget => henough budget budget⟩

end SharpWithin

namespace Script

theorem field_neverRunsOut (table : RateTable α) (discounted : Option α) (index : Nat)
    (row : Row α) (key : String) : NeverRunsOut (field table discounted index row key) := by
  apply NeverRunsOut.of_faultsIn
  exact field_faultsIn table discounted index row key .exact false

variable [Amount α]

theorem band_neverRunsOut (table : RateTable α) (discounted : Option α) (rangeKey : String)
    (start : Option α) (index : Nat) (row : Row α) :
    NeverRunsOut (band table discounted rangeKey start index row) := by
  apply NeverRunsOut.of_faultsIn
  exact band_faultsIn table discounted rangeKey start index row .exact false

theorem charge_sharpWithin (table : RateTable α) (discounted : Option α)
    (rangeKey rateKey : String) (quantity : α) (index : Nat) (start : Option α) (total : α)
    (rows : List (Row α)) :
    SharpWithin rows.length fun limit left =>
      charge table discounted rangeKey rateKey quantity limit left index start total rows := by
  induction rows generalizing index start total with
  | nil => exact .fixed 0 (.ok total)
  | cons row rows ih =>
    apply SharpWithin.step
    apply SharpWithin.bind
    · apply band_neverRunsOut
    intro band _
    apply SharpWithin.bind
    · apply field_neverRunsOut
    intro rate _
    apply ih

variable (table : RateTable α) (quantity : α) (mode : Mode) (discounted : Option α)

theorem resolve_neverRunsOut (key : String) : NeverRunsOut (table.resolve key quantity mode) := by
  apply NeverRunsOut.of_faultsIn
  exact table.resolve_faultsIn key quantity mode false

theorem threePartCurve_sharp (thresholdKey feeKey overageKey : String) :
    Sharp table.rows.length fun budget =>
      (threePartCurve thresholdKey feeKey overageKey).evaluate table quantity mode budget
        discounted := by
  unfold evaluate
  apply Sharp.bind (resolve_neverRunsOut table quantity mode thresholdKey)
  intro hit? hresolve
  cases hit? with
  | none => exact .fixed _ (.ok Amount.zero)
  | some hit =>
    -- The row before is read at a step of its own, so a second step takes two rows.
    have hlt := RateTable.index_lt_of_resolve_eq_ok hresolve
    obtain ⟨index, row⟩ := hit
    refine SharpWithin.sharp (SharpWithin.mono (SharpWithin.step ?_) hlt)
    apply SharpWithin.bind
    · apply field_neverRunsOut
    intro fee _
    cases mode with
    | exact => exact .fixed _ (.ok fee)
    | curve =>
      cases index with
      | zero => exact .fixed _ (.ok fee)
      | succ index =>
        dsimp only
        cases table.rows[index]? with
        | none => exact .fixed _ (.ok fee)
        | some before =>
          have hone : 0 + 1 ≤ index + 1 := Nat.le_add_left 1 index
          refine SharpWithin.mono (SharpWithin.step ?_) hone
          apply SharpWithin.bind
          · apply field_neverRunsOut
          intro previousFee _
          apply SharpWithin.bind
          · apply field_neverRunsOut
          intro overage _
          apply SharpWithin.bind
          · apply field_neverRunsOut
          intro threshold _
          exact .fixed _ (.ok _)

theorem graduated_sharp (rangeKey rateKey : String) :
    Sharp table.rows.length fun budget =>
      (graduated rangeKey rateKey).evaluate table quantity mode budget discounted := by
  unfold evaluate
  apply Sharp.bind (resolve_neverRunsOut table quantity mode rangeKey)
  intro hit? _
  cases hit? with
  | none => exact .fixed _ (.ok Amount.zero)
  | some hit =>
    have hlength : (table.rows.take (hit.index + 1)).length ≤ table.rows.length :=
      List.length_take_le' ..
    exact ((charge_sharpWithin table discounted rangeKey rateKey quantity 0 none Amount.zero
      (table.rows.take (hit.index + 1))).mono hlength).sharp

/--
A budget decides only whether a script runs out of steps, and never what it charges.
-/
theorem evaluate_budget_sharp (script : Script) :
    ∃ needed ≤ table.rows.length, ∃ result : Except (Fault α) α,
      (∀ limit, result ≠ .error (.budgetExceeded limit)) ∧
      (∀ budget < needed,
        script.evaluate table quantity mode budget discounted =
          .error (.budgetExceeded budget)) ∧
      ∀ budget ≥ needed, script.evaluate table quantity mode budget discounted = result := by
  cases script with
  | threePartCurve thresholdKey feeKey overageKey => apply threePartCurve_sharp
  | graduated rangeKey rateKey => apply graduated_sharp

/-- A quantity in the second of two ranges takes two steps, one for each range. -/
example :
    ((graduated "range" "rate").evaluate RateTable.growth 150 .exact 1 none matches
      .error (.budgetExceeded 1)) = true ∧
    ((graduated "range" "rate").evaluate RateTable.growth 150 .exact 2 none).toOption.any
      (· == 650) = true := by
  decide +kernel

end Script

end Tariff
