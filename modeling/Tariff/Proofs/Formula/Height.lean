import Mathlib.Tactic.Positivity
import Mathlib.Tactic.Ring
import Tariff.Proofs.Fault
import Tariff.Proofs.Formula.Soundness

/-!
This module contains how tall the trees are that the parser builds.

Nesting does not bound the height directly. A chain gives back at its end all nesting that its
operands have used up, while the tree of its first operand has grown by every one of them, and the
chains of the four levels are put around each other. So with `depth` levels of nesting left a level
can build a tree whose height is quadratic in `depth`: `Level.maxHeight`.
-/

namespace Tariff.Formula

variable {α β : Type}

namespace Expr

mutual

/--
The number of operators, functions and choices between the root of an expression and its lowest
leaf. What walks the expression has one call more than that open at its deepest.
-/
def height : Expr α → Nat
  | number _ | var _ => 0
  | neg operand | not operand => operand.height + 1
  | binary _ left right => max left.height right.height + 1
  | call _ arguments => greatestHeight arguments + 1
  | choose condition whenTrue whenFalse =>
    max condition.height (max whenTrue.height whenFalse.height) + 1

def greatestHeight : List (Expr α) → Nat
  | [] => 0
  | expr :: exprs => max expr.height (greatestHeight exprs)

end

theorem greatestHeight_le {bound : Nat} {exprs : List (Expr α)}
    (h : ∀ expr ∈ exprs, expr.height ≤ bound) : greatestHeight exprs ≤ bound := by
  induction exprs with
  | nil => exact Nat.zero_le bound
  | cons expr exprs ih =>
    rw [List.forall_mem_cons] at h
    exact Nat.max_le.2 ⟨h.1, ih h.2⟩

end Expr

/--
The greatest height of a tree that a level builds with `depth` levels of nesting left.
-/
def Level.maxHeight (which : Level) (depth : Nat) : Nat :=
  2 * depth * depth + match which with
    | .chain .disjunction => 4 * depth + 1
    | .chain .conjunction => 3 * depth + 1
    | .negation | .comparison => 2 * depth + 1
    | .chain .sum => 2 * depth
    | .chain .product => depth
    | .minus | .operand => 0

/--
The greatest height of an expression of its own, which takes up a level of nesting itself.
-/
def maxHeight (depth : Nat) : Nat :=
  2 * depth * depth - 1

theorem two_mul_succ_mul_succ (depth : Nat) :
    2 * (depth + 1) * (depth + 1) = 2 * depth * depth + (4 * depth + 2) := by
  ring

theorem maxHeight_succ (depth : Nat) :
    maxHeight (depth + 1) = (Level.chain .disjunction).maxHeight depth := by
  simp only [maxHeight, Level.maxHeight, two_mul_succ_mul_succ]
  omega

theorem maxHeight_add_one {depth : Nat} (h : 0 < depth) :
    maxHeight depth + 1 = Level.operand.maxHeight depth := by
  have : 0 < 2 * depth * depth := by positivity
  simp only [maxHeight, Level.maxHeight]
  omega

theorem Level.maxHeight_lt_succ (which : Level) (depth : Nat) :
    which.maxHeight depth < which.maxHeight (depth + 1) := by
  unfold maxHeight
  rw [two_mul_succ_mul_succ]
  split <;> omega

theorem Chain.maxHeight_operands_add (chain : Chain) (depth : Nat) :
    chain.operands.maxHeight depth + depth ≤ (Level.chain chain).maxHeight depth := by
  cases chain <;> simp only [operands, Level.maxHeight] <;> omega

namespace Parser

def Within (bound : Nat) (parsed : Parsed α (Expr α)) : Prop :=
  parsed.1.height ≤ bound

theorem moreItems_all {item : List (Lexeme α) → Parse α (Parsed α β)} {p : β → Prop}
    (hitem : ∀ lexemes, Gives (fun parsed => p parsed.1) (item lexemes)) (bound : Nat)
    (lexemes : List (Lexeme α)) :
    Gives (fun parsed => ∀ b ∈ parsed.1, p b) (moreItems item bound lexemes) := by
  induction bound generalizing lexemes with
  | zero => exact .ok (by simp)
  | succ bound ih =>
    unfold moreItems
    split
    next _ _ _ lexemes hbound =>
      cases hbound
      refine Gives.bind (hitem lexemes) ?_
      rintro ⟨first, lexemes'⟩ hfirst
      refine Gives.bind (ih lexemes') ?_
      rintro ⟨others, rest⟩ hothers
      exact .ok (List.forall_mem_cons.2 ⟨hfirst, hothers⟩)
    next => exact .ok (by simp)

theorem items_all {item : List (Lexeme α) → Parse α (Parsed α β)} {p : β → Prop}
    (hitem : ∀ lexemes, Gives (fun parsed => p parsed.1) (item lexemes))
    (lexemes : List (Lexeme α)) :
    Gives (fun parsed => ∀ b ∈ parsed.1, p b) (items item lexemes) := by
  unfold items
  split
  next => exact .ok (by simp)
  next =>
    refine Gives.bind (hitem lexemes) ?_
    rintro ⟨first, lexemes'⟩ hfirst
    refine Gives.bind (moreItems_all hitem _ lexemes') ?_
    rintro ⟨others, rest⟩ hothers
    exact .ok (List.forall_mem_cons.2 ⟨hfirst, hothers⟩)

theorem signed_within {stop depth : Nat} {which tighter : Level} {sign : Token α}
    {apply : Expr α → Expr α} {lexemes : List (Lexeme α)}
    (hsign : which.TakesSign sign apply tighter)
    (hoperand : ∀ {depth' : Nat} (rest : List (Lexeme α)), depth = depth' + 1 →
      Gives (Within (which.maxHeight depth')) (level stop which depth' rest))
    (htighter : Gives (Within (tighter.maxHeight depth)) (level stop tighter depth lexemes)) :
    Gives (Within (which.maxHeight depth)) (level stop which depth lexemes) := by
  rcases exists_lexeme_or_ne sign lexemes with ⟨s, t, rest, rfl⟩ | hplain
  · rw [level_of_sign hsign]
    cases depth with
    | zero => apply refuse_gives
    | succ depth =>
      refine Gives.bind (hoperand rest rfl) ?_
      rintro ⟨operand, rest'⟩ hoperand
      have hheight : (apply operand).height = operand.height + 1 := by cases hsign <;> rfl
      refine .ok ?_
      rw [Within, hheight]
      exact Nat.lt_of_le_of_lt hoperand (which.maxHeight_lt_succ depth)
  · rw [level_of_no_sign hsign hplain]
    cases hsign <;> exact htighter

mutual

theorem expression_within (stop depth : Nat) (lexemes : List (Lexeme α)) :
    Gives (fun parsed => 0 < depth ∧ parsed.1.height ≤ maxHeight depth)
      (expression stop depth lexemes) := by
  cases depth with
  | zero =>
    rw [expression]
    apply refuse_gives
  | succ depth =>
    rw [expression, maxHeight_succ]
    refine Gives.imp (level_within stop (.chain .disjunction) depth lexemes) ?_
    intro parsed hparsed
    exact ⟨Nat.succ_pos depth, hparsed⟩
termination_by 10 * depth
decreasing_by
  simp only [Level.rank]
  omega

theorem level_within (stop : Nat) (which : Level) (depth : Nat) (lexemes : List (Lexeme α)) :
    Gives (Within (which.maxHeight depth)) (level stop which depth lexemes) := by
  cases which with
  | chain chain =>
    rw [level]
    refine Gives.bind (level_within stop chain.operands depth lexemes) ?_
    rintro ⟨left, lexemes'⟩ hleft
    refine Gives.imp (joined_within stop chain depth (Nat.le_refl _) hleft lexemes') ?_
    intro parsed hparsed
    exact Nat.le_trans hparsed (chain.maxHeight_operands_add depth)
  | negation =>
    apply signed_within .negation
    · exact fun rest hdepth => level_within stop .negation _ rest
    · exact level_within stop .comparison depth lexemes
  | comparison =>
    rw [level]
    refine Gives.bind (level_within stop (.chain .sum) depth lexemes) ?_
    rintro ⟨left, lexemes'⟩ hleft
    dsimp only
    split
    next =>
      refine .ok ?_
      simp only [Within, Level.maxHeight] at *
      omega
    next op lexemes'' hop =>
      refine Gives.bind (level_within stop (.chain .sum) depth lexemes'') ?_
      rintro ⟨right, rest⟩ hright
      refine .ok ?_
      simp only [Within, Level.maxHeight, Expr.height] at *
      omega
  | minus =>
    apply signed_within .minus
    · exact fun rest hdepth => level_within stop .minus _ rest
    · exact level_within stop .operand depth lexemes
  | operand =>
    rw [level]
    exact operand_within stop depth lexemes
termination_by 10 * depth + 1 + which.rank
decreasing_by
  · have := Chain.rank_operands_lt chain
    omega
  all_goals
    simp only [Level.rank]
    omega

/--
Every further operand puts one operator around those before it.
-/
theorem joined_within (stop : Nat) (chain : Chain) (depth : Nat) {bound : Nat}
    (hbound : chain.operands.maxHeight depth ≤ bound) {left : Expr α} (hleft : left.height ≤ bound)
    (lexemes : List (Lexeme α)) :
    Gives (Within (bound + depth)) (joined stop chain depth left lexemes) := by
  rw [joined]
  split
  next => exact .ok (Nat.le_add_right_of_le hleft)
  next op lexemes' hop =>
    split
    next => apply refuse_gives
    next depth =>
      have hoperands : chain.operands.maxHeight depth < bound :=
        Nat.lt_of_lt_of_le (chain.operands.maxHeight_lt_succ depth) hbound
      refine Gives.bind (level_within stop chain.operands depth lexemes') ?_
      rintro ⟨right, lexemes''⟩ hright
      have hjoined : (Expr.binary op left right).height ≤ bound + 1 := by
        simp only [Within, Expr.height] at *
        omega
      refine Gives.imp (joined_within stop chain depth (by omega) hjoined lexemes'') ?_
      intro parsed hparsed
      simp only [Within] at *
      omega
termination_by 10 * depth
decreasing_by
  all_goals have := Level.rank_le chain.operands
  all_goals omega

theorem operand_within (stop depth : Nat) (lexemes : List (Lexeme α)) :
    Gives (Within (Level.operand.maxHeight depth)) (operand stop depth lexemes) := by
  have hinner : 0 < depth → maxHeight depth + 1 = Level.operand.maxHeight depth :=
    maxHeight_add_one
  unfold operand
  split
  next => exact .ok (Nat.zero_le _)
  next lexemes =>
    refine Gives.bind (expression_within stop depth lexemes) ?_
    rintro ⟨inner, lexemes'⟩ ⟨hdepth, hheight⟩
    refine Gives.bind (expect_gives stop .rightParen lexemes') ?_
    rintro ⟨close, rest⟩ _
    refine .ok ?_
    simp only [Within] at *
    omega
  next lexemes =>
    refine Gives.bind (expression_within stop depth lexemes) ?_
    rintro ⟨condition, lexemes₁⟩ ⟨hdepth, hcondition⟩
    refine Gives.bind (expect_gives stop .thenWord lexemes₁) ?_
    rintro ⟨thenWord, lexemes₂⟩ _
    refine Gives.bind (expression_within stop depth lexemes₂) ?_
    rintro ⟨whenTrue, lexemes₃⟩ ⟨_, hwhenTrue⟩
    refine Gives.bind (expect_gives stop .elseWord lexemes₃) ?_
    rintro ⟨elseWord, lexemes₄⟩ _
    refine Gives.bind (expression_within stop depth lexemes₄) ?_
    rintro ⟨whenFalse, rest⟩ ⟨_, hwhenFalse⟩
    refine .ok ?_
    simp only [Within, Expr.height] at *
    omega
  next name start _ lexemes =>
    split
    next lexemes =>
      split
      next => apply Gives.error
      next function _ =>
        refine Gives.bind (items_all (p := fun expr => 0 < depth ∧ expr.height ≤ maxHeight depth)
          (expression_within stop depth) lexemes) ?_
        rintro ⟨arguments, lexemes'⟩ harguments
        refine Gives.bind (expect_gives stop .rightParen lexemes') ?_
        rintro ⟨close, rest⟩ _
        dsimp only
        split
        next => apply Gives.error
        next hlength =>
          refine .ok ?_
          have hgreatest := Expr.greatestHeight_le fun expr hexpr => (harguments expr hexpr).2
          -- There are at least two arguments, and none could be parsed without nesting.
          obtain ⟨argument, hargument⟩ := List.exists_mem_of_length_pos (l := arguments) (by omega)
          have hdepth := (harguments argument hargument).1
          simp only [Within, Expr.height] at *
          omega
    next => exact .ok (Nat.zero_le _)
  next => apply refuse_gives
termination_by 10 * depth + 1

end

end Parser

theorem height_of_parseExpression {stop : Nat} {lexemes : List (Lexeme α)} {expr : Expr α}
    (h : parseExpression stop lexemes = .ok expr) : expr.height ≤ maxHeight maxNesting := by
  revert expr
  change Gives _ _
  unfold parseExpression
  split
  next => apply Gives.error
  next =>
    split
    next => apply Gives.error
    next =>
      refine Gives.bind (Parser.expression_within stop maxNesting lexemes) ?_
      rintro ⟨expr, rest⟩ ⟨_, hexpr⟩
      dsimp only
      split
      next => exact .ok hexpr
      next => apply Gives.error

theorem exists_parseExpression_of_parse [Amount α] {source : String} {formula : Formula α}
    (h : Formula.parse source = .ok formula) :
    ∃ stop lexemes, parseExpression stop lexemes = .ok formula.expr := by
  unfold Formula.parse at h
  obtain ⟨lexemes, _, h⟩ := exists_of_bind_eq_ok h
  split at h
  next =>
    obtain ⟨_, body, _, _, _, _, stop, _, _, _, _, _, _, hexpr, _⟩ :=
      Formula.exists_wrapped_of_parseLookup h
    exact ⟨stop, body, hexpr⟩
  next =>
    obtain ⟨expr, hexpr, h⟩ := exists_of_bind_eq_ok h
    cases h
    exact ⟨_, lexemes, hexpr⟩

end Tariff.Formula
