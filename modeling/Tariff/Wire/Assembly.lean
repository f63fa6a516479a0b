import Tariff.Json.Basic

/-!
This module contains the assembly of records from parts that are decoded one by one. A record names
its parts in one order and a document gives them in another, so every fault carries its place in the
document, and of several faults the one in the first place counts.
-/

namespace Tariff.Wire

inductive Assembly (β : Type) where
  | done (value : β)
  /-- The first fault with its place. -/
  | failed (place : Nat) (fault : Json.Fault)
deriving Repr, DecidableEq

namespace Assembly

def ofExcept {β : Type} (place : Nat) : Except Json.Fault β → Assembly β
  | .ok value => done value
  | .error fault => failed place fault

def toExcept {β : Type} : Assembly β → Except Json.Fault β
  | done value => .ok value
  | failed _ fault => .error fault

def apply {β γ : Type} : Assembly (β → γ) → Assembly β → Assembly γ
  | done f, done value => done (f value)
  | done _, failed place fault => failed place fault
  | failed place fault, done _ => failed place fault
  | failed first fault, failed second other =>
    if second < first then failed second other else failed first fault

instance : Applicative Assembly where
  pure := done
  seq f value := f.apply (value ())

end Assembly

end Tariff.Wire
