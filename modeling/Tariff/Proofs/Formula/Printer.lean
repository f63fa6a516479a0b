import Tariff.Proofs.Formula.Tallest

/-!
This module contains a printer for expressions. It puts an operand into parentheses where its level
of the grammar binds looser than the place it stands in, and a choice wherever it is an operand,
because its last branch would take the operators after it.

It also contains the nesting that the parser has to go through to read what was printed.
-/

namespace Tariff.Formula

variable {α : Type}

/--
The level of the operand in front of an operator. It is the operator's own for those that associate
to the left.
-/
def Operator.before (op : Operator) : Level :=
  if op.compares then op.level.tighter else op.level

def Operator.after (op : Operator) : Level :=
  op.level.tighter

def enclose (fits : Bool) (ts : List (Token α)) : List (Token α) :=
  if fits then ts else .mark .leftParen :: ts ++ [.mark .rightParen]

def deepen (fits : Bool) (nesting : Nat) : Nat :=
  if fits then nesting else nesting + 1

theorem Operator.joins_or_compares (op : Operator) :
    (∃ chain : Chain, chain.joins op = true) ∨ op.compares = true := by
  cases op with
  | lt | le | gt | ge | eq | ne => exact .inr rfl
  | or => exact .inl ⟨.disjunction, rfl⟩
  | and => exact .inl ⟨.conjunction, rfl⟩
  | add | sub => exact .inl ⟨.sum, rfl⟩
  | mul | div => exact .inl ⟨.product, rfl⟩

theorem Operator.before_eq_of_joins {op : Operator} {chain : Chain} (h : chain.joins op = true) :
    op.before = .chain chain := by
  have hcompares : op.compares = false := by
    rw [Bool.eq_false_iff]
    intro hop
    rw [Chain.joins_eq_false_of_compares hop] at h
    cases h
  rw [before, hcompares, Parser.level_eq_of_joins h]
  rfl

theorem Operator.after_eq_of_joins {op : Operator} {chain : Chain} (h : chain.joins op = true) :
    op.after = chain.operands := by
  rw [after, Parser.level_eq_of_joins h]
  rfl

theorem Operator.before_eq_of_compares {op : Operator} (h : op.compares = true) :
    op.before = .chain .sum := by
  rw [before, h, Parser.level_eq_of_compares h]
  rfl

theorem Operator.after_eq_of_compares {op : Operator} (h : op.compares = true) :
    op.after = .chain .sum := by
  rw [after, Parser.level_eq_of_compares h]
  rfl

theorem Level.rank_operand_le (which : Level) : Level.operand.rank ≤ which.rank := by
  rcases which with ⟨_ | _ | _ | _⟩ | _ | _ | _ | _ <;> decide

theorem Level.eq_or_rank_le_tighter {tight which : Level} (h : tight.rank ≤ which.rank) :
    tight = which ∨ tight.rank ≤ which.tighter.rank ∧ which.tighter.rank < which.rank := by
  rcases tight with ⟨_ | _ | _ | _⟩ | _ | _ | _ | _ <;>
    rcases which with ⟨_ | _ | _ | _⟩ | _ | _ | _ | _ <;> revert h <;> decide

namespace Expr

def level : Expr α → Level
  | number _ | var _ | call .. | choose .. => .operand
  | neg _ => .minus
  | not _ => .negation
  | binary op .. => op.level

def fits (which : Level) : Expr α → Bool
  | choose .. => false
  | e => e.level.rank ≤ which.rank

/--
The operators of a chain that have to be parsed before the last operand is.
-/
def chained (chain : Chain) : Expr α → Nat
  | binary op left _ => if chain.joins op then left.chained chain + 1 else 0
  | _ => 0

/--
How much deeper the operand behind an operator stands than the first operand of the chain.
-/
def shift (op : Operator) (left : Expr α) : Nat :=
  match op.level with
  | .chain chain => left.chained chain + 1
  | _ => 0

mutual

def tokens : Expr α → List (Token α)
  | number value => [.number value]
  | var name => [.name name]
  | neg operand => .operator .sub :: enclose (operand.fits .minus) operand.tokens
  | not operand => .mark .not :: enclose (operand.fits .negation) operand.tokens
  | binary op left right =>
    enclose (left.fits op.before) left.tokens ++
      .operator op :: enclose (right.fits op.after) right.tokens
  | call function arguments =>
    .name function.word :: .mark .leftParen ::
      [.mark .comma].intercalate (tokensOfEach arguments) ++ [.mark .rightParen]
  | choose condition whenTrue whenFalse =>
    .mark .ifWord :: condition.tokens ++ .mark .thenWord :: whenTrue.tokens ++
      .mark .elseWord :: whenFalse.tokens

def tokensOfEach : List (Expr α) → List (List (Token α))
  | [] => []
  | expr :: exprs => expr.tokens :: tokensOfEach exprs

end

mutual

/--
The nesting that the parser goes through when it reads the tokens of an expression.
-/
def nesting : Expr α → Nat
  | number _ | var _ => 0
  | neg operand => deepen (operand.fits .minus) operand.nesting + 1
  | not operand => deepen (operand.fits .negation) operand.nesting + 1
  | binary op left right =>
    max (deepen (left.fits op.before) left.nesting)
      (left.shift op + deepen (right.fits op.after) right.nesting)
  | call _ arguments => greatestNesting arguments + 1
  | choose condition whenTrue whenFalse =>
    max condition.nesting (max whenTrue.nesting whenFalse.nesting) + 1

def greatestNesting : List (Expr α) → Nat
  | [] => 0
  | expr :: exprs => max expr.nesting (greatestNesting exprs)

end

mutual

/--
Whether every call has the two arguments that it needs at least.
-/
def isCallable : Expr α → Bool
  | number _ | var _ => true
  | neg operand | not operand => operand.isCallable
  | binary _ left right => left.isCallable && right.isCallable
  | call _ arguments => 2 ≤ arguments.length && areCallable arguments
  | choose condition whenTrue whenFalse =>
    condition.isCallable && whenTrue.isCallable && whenFalse.isCallable

def areCallable : List (Expr α) → Bool
  | [] => true
  | expr :: exprs => expr.isCallable && areCallable exprs

end

def tokensAt (which : Level) (e : Expr α) : List (Token α) :=
  enclose (e.fits which) e.tokens

def nestingAt (which : Level) (e : Expr α) : Nat :=
  deepen (e.fits which) e.nesting

theorem tokensOfEach_eq_map (exprs : List (Expr α)) : tokensOfEach exprs = exprs.map tokens := by
  induction exprs with
  | nil => rfl
  | cons expr exprs ih => rw [tokensOfEach, ih, List.map_cons]

theorem greatestNesting_lt_iff {exprs : List (Expr α)} (hne : exprs ≠ []) {bound : Nat} :
    greatestNesting exprs < bound ↔ ∀ expr ∈ exprs, expr.nesting < bound := by
  induction exprs with
  | nil => exact absurd rfl hne
  | cons expr exprs ih =>
    cases exprs with
    | nil => simp [greatestNesting]
    | cons next exprs =>
      have := ih (List.cons_ne_nil _ _)
      rw [greatestNesting, max_lt_iff, this, List.forall_mem_cons (l := next :: exprs)]

theorem fits_iff {which : Level} {e : Expr α} :
    e.fits which = true ↔ e.fits e.level = true ∧ e.level.rank ≤ which.rank := by
  cases e <;> simp [fits]

theorem fits_of_level_eq_chain {chain : Chain} {e : Expr α} (h : e.level = .chain chain) :
    e.fits (.chain chain) = true := by
  cases e with
  | binary op left right =>
    rw [level] at h
    simp [fits, level, h]
  | _ => cases h

theorem fits_chain_eq {chain : Chain} {e : Expr α} (h : e.level ≠ .chain chain) :
    e.fits (.chain chain) = e.fits chain.operands := by
  have hrank : e.level.rank ≤ (Level.chain chain).rank ↔ e.level.rank ≤ chain.operands.rank := by
    constructor
    · intro hrank
      rcases Level.eq_or_rank_le_tighter hrank with heq | ⟨hrank, _⟩
      · exact absurd heq h
      · exact hrank
    · intro hrank
      exact Nat.le_of_lt (Nat.lt_of_le_of_lt hrank chain.rank_operands_lt)
  rw [Bool.eq_iff_iff]
  exact (fits_iff.trans (and_congr_right fun _ => hrank)).trans fits_iff.symm

theorem shift_eq_of_joins {op : Operator} {chain : Chain} (h : chain.joins op = true)
    (left : Expr α) : left.shift op = left.chained chain + 1 := by
  rw [shift, Parser.level_eq_of_joins h]

theorem shift_eq_of_compares {op : Operator} (h : op.compares = true) (left : Expr α) :
    left.shift op = 0 := by
  rw [shift, Parser.level_eq_of_compares h]

theorem chained_eq_zero {chain : Chain} {e : Expr α} (h : e.level ≠ .chain chain) :
    e.chained chain = 0 := by
  cases e with
  | binary op left right =>
    rw [chained, if_neg]
    intro hop
    exact h (Parser.level_eq_of_joins hop)
  | _ => rfl

end Expr

namespace Derives

variable {which : Level} {ts : List (Token α)} {e : Expr α}

theorem of_tighter (h : Derives which.tighter ts e) : Derives which ts e := by
  cases which with
  | chain chain => exact h.single
  | negation => exact .comparison h
  | comparison => exact .sum h
  | minus => exact .operand h
  | operand => exact h

theorem of_rank_le {tight which : Level} (h : Derives tight ts e)
    (hrank : tight.rank ≤ which.rank) : Derives which ts e := by
  rcases Level.eq_or_rank_le_tighter hrank with rfl | ⟨hrank, hlt⟩
  · exact h
  · exact (of_rank_le h hrank).of_tighter
termination_by which.rank

end Derives

end Tariff.Formula
