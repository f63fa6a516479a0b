import Tariff.Fault
import Tariff.Formula.Basic
import Tariff.KeyMap

/-!
This module contains the evaluation of expressions.
-/

namespace Tariff

abbrev Bindings (α : Type) := KeyMap α

namespace Formula

variable {α : Type} [Amount α]

def ofTruth (b : Bool) : α :=
  if b then Amount.one else Amount.zero

def isTrue (x : α) : Bool :=
  x != Amount.zero

def Operator.apply (op : Operator) (left right : α) : Except (ExpressionFault α) α :=
  match op with
  | .add => .ok (left + right)
  | .sub => .ok (left - right)
  | .mul => .ok (left * right)
  | .div => if right == Amount.zero then .error .divisionByZero else .ok (left / right)
  | .lt => .ok (ofTruth (left < right))
  | .le => .ok (ofTruth (left ≤ right))
  | .gt => .ok (ofTruth (right < left))
  | .ge => .ok (ofTruth (right ≤ left))
  | .eq => .ok (ofTruth (left == right))
  | .ne => .ok (ofTruth (left != right))
  | .and => .ok (ofTruth (isTrue left && isTrue right))
  | .or => .ok (ofTruth (isTrue left || isTrue right))

/--
Whether the value of the left operand decides the result, so that the right one is not evaluated.
-/
def Operator.decided (op : Operator) (left : α) : Option α :=
  match op with
  | .and => if isTrue left then none else some Amount.zero
  | .or => if isTrue left then some Amount.one else none
  | _ => none

def Extremum.apply (function : Extremum) (arguments : List α) : α :=
  match function with
  | .min => Amount.least arguments
  | .max => Amount.greatest arguments

namespace Expr

mutual

/--
The value of an expression, which may be infinite or undefined.
-/
def value (bindings : Bindings α) : Expr α → Except (ExpressionFault α) α
  | number x => .ok x
  | var name =>
    match bindings.find? name with
    | some x => .ok x
    | none => .error (.unknownName name)
  | neg operand => do
    let x ← operand.value bindings
    return -x
  | not operand => do
    let x ← operand.value bindings
    return ofTruth !(isTrue x)
  | binary op left right => do
    let x ← left.value bindings
    match op.decided x with
    | some result => return result
    | none => do
      let y ← right.value bindings
      op.apply x y
  | call function arguments => do
    let xs ← values bindings arguments
    return function.apply xs
  | choose condition whenTrue whenFalse => do
    let x ← condition.value bindings
    if isTrue x then whenTrue.value bindings else whenFalse.value bindings

/--
The values of several expressions, up to the first without one.
-/
def values (bindings : Bindings α) : List (Expr α) → Except (ExpressionFault α) (List α)
  | [] => .ok []
  | expr :: exprs => do
    let x ← expr.value bindings
    let xs ← values bindings exprs
    return x :: xs

end

/--
Evaluate an expression. The result is a finite number.
-/
def evaluate (expr : Expr α) (bindings : Bindings α) : Except (ExpressionFault α) α := do
  let x ← expr.value bindings
  if Amount.isFinite x then return x else .error (.notFinite x)

end Expr

end Formula

end Tariff
