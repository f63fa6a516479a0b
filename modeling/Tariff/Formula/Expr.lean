import Tariff.Amount
import Tariff.Formula.Token

/-!
This module contains the expressions that formulas compute.
-/

namespace Tariff.Formula

inductive Extremum where
  | min
  | max
deriving Repr, DecidableEq

def Extremum.ofName? (name : String) : Option Extremum :=
  match name with
  | "min" => some .min
  | "max" => some .max
  | _ => none

/--
An expression. Truth is a number: zero is false and everything else is true.
-/
inductive Expr (α : Type) where
  | number (value : α)
  | var (name : String)
  | neg (operand : Expr α)
  | not (operand : Expr α)
  | binary (op : Operator) (left right : Expr α)
  | call (function : Extremum) (arguments : List (Expr α))
  | choose (condition whenTrue whenFalse : Expr α)
deriving Repr, Inhabited

namespace Expr

variable {α : Type}

mutual

/--
Add the variables of an expression to a list that holds those found before, each once.
-/
def addNames : Expr α → List String → List String
  | number _, names => names
  | var name, names => if name ∈ names then names else names ++ [name]
  | neg operand, names => operand.addNames names
  | not operand, names => operand.addNames names
  | binary _ left right, names => right.addNames (left.addNames names)
  | call _ arguments, names => addAllNames arguments names
  | choose condition whenTrue whenFalse, names =>
    whenFalse.addNames (whenTrue.addNames (condition.addNames names))

def addAllNames : List (Expr α) → List String → List String
  | [], names => names
  | expr :: exprs, names => addAllNames exprs (expr.addNames names)

end

def identifiers (expr : Expr α) : List String :=
  expr.addNames []

variable [BEq α]

mutual

/--
Whether two expressions are the same tree with numbers that compare equal.
-/
def same : Expr α → Expr α → Bool
  | number a, number b => a == b
  | var a, var b => a == b
  | neg a, neg b => same a b
  | not a, not b => same a b
  | binary op a b, binary op' a' b' => op == op' && same a a' && same b b'
  | call f args, call f' args' => f == f' && sameAll args args'
  | choose a b c, choose a' b' c' => same a a' && same b b' && same c c'
  | _, _ => false

def sameAll : List (Expr α) → List (Expr α) → Bool
  | [], [] => true
  | a :: as, b :: bs => same a b && sameAll as bs
  | _, _ => false

end

instance : BEq (Expr α) := ⟨same⟩

end Expr

end Tariff.Formula
