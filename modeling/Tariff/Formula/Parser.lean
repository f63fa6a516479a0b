import Tariff.Formula.Expr

/-!
This module contains the parser for expressions. It follows the levels of the grammar from the
loosest binding one to operands. All functions take the nesting that is still allowed and give the
parsed expression with the lexemes after it.

Nesting is used up by parentheses, arguments, the parts of a choice, the two unary operators and
every further operand of a chain: in `a + b + c` the operand `b` stands one level and `c` two levels
deeper than `a`, as they do in the tree.
-/

namespace Tariff.Formula

/--
Chains of operands, joined by operators that associate to the left.
-/
inductive Chain where
  | disjunction
  | conjunction
  | sum
  | product
deriving Repr, DecidableEq

def Chain.joins : Chain → Operator → Bool
  | .disjunction, .or => true
  | .conjunction, .and => true
  | .sum, .add | .sum, .sub => true
  | .product, .mul | .product, .div => true
  | _, _ => false

/--
The operators that compare. They do not associate.
-/
def Operator.compares : Operator → Bool
  | .lt | .le | .gt | .ge | .eq | .ne => true
  | _ => false

inductive Level where
  | chain (chain : Chain)
  /-- An operand after any number of negated truths. -/
  | negation
  /-- One comparison at most. -/
  | comparison
  /-- An operand after any number of minus signs. -/
  | minus
  /-- A literal, variable, call, choice or parenthesised expression. -/
  | operand
deriving Repr, DecidableEq

def Chain.operands : Chain → Level
  | .disjunction => .chain .conjunction
  | .conjunction => .negation
  | .sum => .chain .product
  | .product => .minus

/--
The number of levels that bind tighter, counting the level itself.
-/
def Level.rank : Level → Nat
  | .chain .disjunction => 8
  | .chain .conjunction => 7
  | .negation => 6
  | .comparison => 5
  | .chain .sum => 4
  | .chain .product => 3
  | .minus => 2
  | .operand => 1

theorem Chain.rank_operands_lt (chain : Chain) :
    chain.operands.rank < (Level.chain chain).rank := by
  cases chain <;> decide

theorem Level.rank_le (level : Level) : level.rank ≤ 8 := by
  rcases level with ⟨_ | _ | _ | _⟩ | _ | _ | _ | _ <;> decide

namespace Parser

variable {α β : Type}

abbrev Parsed (α β : Type) := β × List (Lexeme α)

abbrev Parse (α : Type) := Except (ParseError α)

/--
The place of the next lexeme, or the end of the text.
-/
def offset (stop : Nat) : List (Lexeme α) → Nat
  | [] => stop
  | lexeme :: _ => lexeme.start

/--
Refuse the lexemes from the next one on.
-/
def refuse (stop : Nat) (lexemes : List (Lexeme α)) (cause : Option (Token α) → ParseCause α) :
    Parse α (Parsed α β) :=
  .error { cause := cause (lexemes.head?.map (·.token)), offset := offset stop lexemes }

def tooDeep (stop : Nat) (lexemes : List (Lexeme α)) : Parse α (Parsed α β) :=
  refuse stop lexemes fun _ => .tooDeep

def expect (stop : Nat) (mark : Mark) (lexemes : List (Lexeme α)) : Parse α (Parsed α (Lexeme α)) :=
  match lexemes with
  | { token := .mark found, start, stop := after } :: rest =>
    if found = mark then .ok ({ token := .mark found, start, stop := after }, rest)
    else refuse stop lexemes (.expected mark)
  | _ => refuse stop lexemes (.expected mark)

def expectName (stop : Nat) (lexemes : List (Lexeme α)) : Parse α (Parsed α String) :=
  match lexemes with
  | { token := .name text, .. } :: rest => .ok (text, rest)
  | _ => refuse stop lexemes .expectedName

def operator? (wanted : Operator → Bool) : List (Lexeme α) → Option (Operator × List (Lexeme α))
  | { token := .operator op, .. } :: rest => if wanted op then some (op, rest) else none
  | _ => none

/--
Parse items after commas for as long as a comma follows. The bound is the number of lexemes, none of
which is used twice.
-/
def moreItems (item : List (Lexeme α) → Parse α (Parsed α β)) :
    (bound : Nat) → List (Lexeme α) → Parse α (Parsed α (List β))
  | bound + 1, { token := .mark .comma, .. } :: lexemes => do
    let (first, lexemes) ← item lexemes
    let (others, lexemes) ← moreItems item bound lexemes
    return (first :: others, lexemes)
  | _, lexemes => .ok ([], lexemes)

/--
Parse the items of an argument list up to its closing parenthesis, which is left.
-/
def items (item : List (Lexeme α) → Parse α (Parsed α β)) (lexemes : List (Lexeme α)) :
    Parse α (Parsed α (List β)) :=
  match lexemes with
  | { token := .mark .rightParen, .. } :: _ => .ok ([], lexemes)
  | _ => do
    let (first, lexemes) ← item lexemes
    let (others, lexemes) ← moreItems item lexemes.length lexemes
    return (first :: others, lexemes)

mutual

/--
Parse an expression of its own, which is one level deeper than what it stands in.
-/
def expression (stop : Nat) : (depth : Nat) → List (Lexeme α) → Parse α (Parsed α (Expr α))
  | 0, lexemes => tooDeep stop lexemes
  | depth + 1, lexemes => level stop (.chain .disjunction) depth lexemes
termination_by depth => 10 * depth
decreasing_by
  simp only [Level.rank]
  omega

def level (stop : Nat) (which : Level) (depth : Nat) (lexemes : List (Lexeme α)) :
    Parse α (Parsed α (Expr α)) :=
  match which with
  | .chain chain => do
    let (left, lexemes) ← level stop chain.operands depth lexemes
    joined stop chain depth left lexemes
  | .negation =>
    match lexemes with
    | { token := .mark .not, .. } :: lexemes =>
      match depth with
      | 0 => tooDeep stop lexemes
      | depth + 1 => do
        let (operand, lexemes) ← level stop .negation depth lexemes
        return (.not operand, lexemes)
    | _ => level stop .comparison depth lexemes
  | .comparison => do
    let (left, lexemes) ← level stop (.chain .sum) depth lexemes
    match operator? Operator.compares lexemes with
    | none => return (left, lexemes)
    | some (op, lexemes) => do
      let (right, lexemes) ← level stop (.chain .sum) depth lexemes
      return (.binary op left right, lexemes)
  | .minus =>
    match lexemes with
    | { token := .operator .sub, .. } :: lexemes =>
      match depth with
      | 0 => tooDeep stop lexemes
      | depth + 1 => do
        let (operand, lexemes) ← level stop .minus depth lexemes
        return (.neg operand, lexemes)
    | _ => level stop .operand depth lexemes
  | .operand => operand stop depth lexemes
termination_by 10 * depth + 1 + which.rank
decreasing_by
  · have := Chain.rank_operands_lt chain
    omega
  all_goals simp +arith only [Level.rank]

/--
Parse the operands that follow the first one of a chain.
-/
def joined (stop : Nat) (chain : Chain) (depth : Nat) (left : Expr α)
    (lexemes : List (Lexeme α)) : Parse α (Parsed α (Expr α)) :=
  match operator? chain.joins lexemes with
  | none => .ok (left, lexemes)
  | some (op, lexemes) =>
    match depth with
    | 0 => tooDeep stop lexemes
    | depth + 1 => do
      let (right, lexemes) ← level stop chain.operands depth lexemes
      joined stop chain depth (.binary op left right) lexemes
termination_by 10 * depth
decreasing_by
  all_goals have := Level.rank_le chain.operands
  all_goals omega

def operand (stop : Nat) (depth : Nat) (lexemes : List (Lexeme α)) : Parse α (Parsed α (Expr α)) :=
  match lexemes with
  | { token := .number value, .. } :: lexemes => .ok (.number value, lexemes)
  | { token := .mark .leftParen, .. } :: lexemes => do
    let (inner, lexemes) ← expression stop depth lexemes
    let (_, lexemes) ← expect stop .rightParen lexemes
    return (inner, lexemes)
  | { token := .mark .ifWord, .. } :: lexemes => do
    let (condition, lexemes) ← expression stop depth lexemes
    let (_, lexemes) ← expect stop .thenWord lexemes
    let (whenTrue, lexemes) ← expression stop depth lexemes
    let (_, lexemes) ← expect stop .elseWord lexemes
    let (whenFalse, lexemes) ← expression stop depth lexemes
    return (.choose condition whenTrue whenFalse, lexemes)
  | { token := .name name, start, .. } :: lexemes =>
    match lexemes with
    | { token := .mark .leftParen, .. } :: lexemes =>
      match Extremum.ofName? name with
      | none => .error { cause := .unknownFunction name, offset := start }
      | some function => do
        let (arguments, lexemes) ← items (fun lexemes => expression stop depth lexemes) lexemes
        let (_, lexemes) ← expect stop .rightParen lexemes
        if arguments.length < 2 then
          .error { cause := .tooFewArguments name, offset := start }
        else
          return (.call function arguments, lexemes)
    | _ => .ok (.var name, lexemes)
  | _ => refuse stop lexemes .unexpected
termination_by 10 * depth + 1

end

end Parser

/--
Parse lexemes that make up a whole expression. `stop` is where the expression's text ends.
-/
def parseExpression {α : Type} (stop : Nat) (lexemes : List (Lexeme α)) :
    Except (ParseError α) (Expr α) :=
  match lexemes.find? (·.token matches .mark .lookup) with
  | some lexeme => .error { cause := .innerLookup, offset := lexeme.start }
  | none =>
    if lexemes.isEmpty then
      .error { cause := .emptyExpression, offset := stop }
    else do
      let (expr, rest) ← Parser.expression stop maxNesting lexemes
      match rest with
      | [] => return expr
      | lexeme :: _ => .error { cause := .trailing lexeme.token, offset := lexeme.start }

end Tariff.Formula
