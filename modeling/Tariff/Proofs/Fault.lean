import Tariff.Fault

/-!
This module contains two ways to speak about the faults of a calculation: which faults it can have
at all, and when a second calculation has the same outcome except where the first finds no row.
-/

namespace Tariff

variable {ε α β γ : Type}

theorem ok_bind (b : β) (f : β → Except ε γ) : (Except.ok b >>= f) = f b :=
  rfl

theorem exists_of_bind_eq_ok {x : Except ε β} {f : β → Except ε γ} {c : γ}
    (h : (x >>= f) = .ok c) : ∃ b, x = .ok b ∧ f b = .ok c := by
  cases x with
  | error fault => cases h
  | ok b => exact ⟨b, rfl, h⟩

theorem mapError_eq_ok_iff {ε' : Type} {x : Except ε β} {f : ε → ε'} {b : β} :
    x.mapError f = .ok b ↔ x = .ok b := by
  cases x with
  | error fault => constructor <;> intro h <;> cases h
  | ok b => constructor <;> intro h <;> cases h <;> rfl

def FaultsIn (p : ε → Prop) (x : Except ε β) : Prop :=
  ∀ fault, x = .error fault → p fault

namespace FaultsIn

variable {p q : ε → Prop}

theorem ok (b : β) : FaultsIn p (.ok b) := by
  intro fault h
  cases h

theorem error {fault : ε} (h : p fault) : FaultsIn p (.error fault : Except ε β) := by
  intro fault' heq
  cases heq
  exact h

theorem imp {x : Except ε β} (hpq : ∀ fault, p fault → q fault) (hx : FaultsIn p x) :
    FaultsIn q x := by
  intro fault h
  exact hpq fault (hx fault h)

theorem bind {x : Except ε β} {f : β → Except ε γ} (hx : FaultsIn p x)
    (hf : ∀ b, x = .ok b → FaultsIn p (f b)) : FaultsIn p (x >>= f) := by
  cases x with
  | error fault => exact error (hx fault rfl)
  | ok b => exact hf b rfl

theorem mapError {ε' : Type} {p : ε' → Prop} {f : ε → ε'} (hf : ∀ fault, p (f fault))
    (x : Except ε β) : FaultsIn p (x.mapError f) := by
  cases x with
  | error fault => exact error (hf fault)
  | ok b => exact ok b

theorem mapError_of {ε' : Type} {p' : ε' → Prop} {f : ε → ε'} {x : Except ε β}
    (hx : FaultsIn p x) (hf : ∀ fault, p fault → p' (f fault)) : FaultsIn p' (x.mapError f) := by
  cases x with
  | error fault => exact error (hf fault (hx fault rfl))
  | ok b => exact ok b

theorem foldlM {f : γ → β → Except ε γ} {xs : List β}
    (hf : ∀ acc, ∀ x ∈ xs, FaultsIn p (f acc x)) (acc : γ) : FaultsIn p (xs.foldlM f acc) := by
  induction xs generalizing acc with
  | nil => exact ok acc
  | cons x xs ih =>
    rw [List.foldlM_cons]
    apply bind (hf acc x List.mem_cons_self)
    intro next _
    exact ih (fun acc y hy => hf acc y (List.mem_cons_of_mem _ hy)) next

theorem mapM {f : β → Except ε γ} {xs : List β} (hf : ∀ x ∈ xs, FaultsIn p (f x)) :
    FaultsIn p (xs.mapM f) := by
  induction xs with
  | nil => exact ok []
  | cons x xs ih =>
    rw [List.mapM_cons]
    apply bind (hf x List.mem_cons_self)
    intro y _
    apply bind (ih fun z hz => hf z (List.mem_cons_of_mem _ hz))
    intro ys _
    exact ok (y :: ys)

theorem exists_ok {x : Except ε β} (h : FaultsIn (fun _ => False) x) : ∃ b, x = .ok b := by
  cases x with
  | error fault => exact (h fault rfl).elim
  | ok b => exact ⟨b, rfl⟩

end FaultsIn

/--
The second of two calculations has the outcome of the first, unless the first finds no row for a
quantity.
-/
def AgreesUnlessMiss (x y : Except (Fault α) β) : Prop :=
  (∃ fault, x = .error fault ∧ fault.isRangeMiss = true) ∨ y = x

namespace AgreesUnlessMiss

theorem refl (x : Except (Fault α) β) : AgreesUnlessMiss x x :=
  .inr rfl

theorem miss {fault : Fault α} (h : fault.isRangeMiss = true) (y : Except (Fault α) β) :
    AgreesUnlessMiss (.error fault) y :=
  .inl ⟨fault, rfl, h⟩

theorem bind {x y : Except (Fault α) β} {f g : β → Except (Fault α) γ}
    (hxy : AgreesUnlessMiss x y) (hfg : ∀ b, x = .ok b → AgreesUnlessMiss (f b) (g b)) :
    AgreesUnlessMiss (x >>= f) (y >>= g) := by
  rcases hxy with ⟨fault, rfl, hfault⟩ | rfl
  · exact miss hfault _
  · cases y with
    | error fault => exact refl _
    | ok b => exact hfg b rfl

theorem foldlM {f g : γ → β → Except (Fault α) γ} {xs : List β}
    (hfg : ∀ acc, ∀ x ∈ xs, AgreesUnlessMiss (f acc x) (g acc x)) (acc : γ) :
    AgreesUnlessMiss (xs.foldlM f acc) (xs.foldlM g acc) := by
  induction xs generalizing acc with
  | nil => exact refl _
  | cons x xs ih =>
    rw [List.foldlM_cons, List.foldlM_cons]
    apply bind (hfg acc x List.mem_cons_self)
    intro next _
    exact ih (fun acc y hy => hfg acc y (List.mem_cons_of_mem _ hy)) next

theorem ok {x y : Except (Fault α) β} {b : β} (hxy : AgreesUnlessMiss x y) (hx : x = .ok b) :
    y = .ok b := by
  rcases hxy with ⟨fault, hfault, _⟩ | rfl
  · rw [hfault] at hx
    cases hx
  · exact hx

end AgreesUnlessMiss

end Tariff
