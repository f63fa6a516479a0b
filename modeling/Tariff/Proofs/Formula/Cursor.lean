import Tariff.Formula.Parser
import Tariff.Proofs.Text.Offsets

/-!
This module contains the parser as it runs with one counter for nesting. The counter goes up at
every level that is entered and down when the level is left, and a chain leaves all its levels at
once. A move of the parser's cursor is described by the number of levels that it leaves.
-/

namespace Tariff.Formula

variable {α β : Type}

structure Cursor (α : Type) where
  lexemes : List (Lexeme α)
  position : Nat
  stop : Nat
  /-- The counter: the levels that are entered and not left. -/
  depth : Nat
  /-- The greatest value of the counter so far. -/
  peak : Nat
  /-- Whether more levels were ever left than were entered. -/
  overdrawn : Bool

/--
A calculation that moves a cursor. It has no outcome if it is given up.
-/
abbrev Counted (α β : Type) :=
  StateT (Cursor α) (Checked (ParseError α)) β

namespace Cursor

def rest (cursor : Cursor α) : List (Lexeme α) :=
  cursor.lexemes.drop cursor.position

def token? (cursor : Cursor α) : Option (Token α) :=
  cursor.lexemes[cursor.position]?.map (·.token)

def offset (cursor : Cursor α) : Nat :=
  (cursor.lexemes[cursor.position]?.map (·.start)).getD cursor.stop

def advance (cursor : Cursor α) : Cursor α :=
  if cursor.position < cursor.lexemes.length then
    { cursor with position := cursor.position + 1 }
  else
    cursor

def enter (levels : Nat) (cursor : Cursor α) : Cursor α :=
  { cursor with
    depth := cursor.depth + levels
    peak := max cursor.peak (cursor.depth + levels) }

/--
The cursor some levels less deep. The counter stays at zero when there are no levels left.
-/
def leave (levels : Nat) (cursor : Cursor α) : Cursor α :=
  { cursor with
    depth := cursor.depth - levels
    overdrawn := cursor.overdrawn || cursor.depth < levels }

end Cursor

namespace Counted

def trap : Counted α β :=
  fun _ => .trap

def peek : Counted α (Option (Token α)) :=
  fun cursor => return (cursor.token?, cursor)

def refuse (cause : Option (Token α) → ParseCause α) : Counted α β :=
  fun cursor => throw { cause := cause cursor.token?, offset := cursor.offset }

def advance : Counted α Unit :=
  fun cursor => return ((), cursor.advance)

def enter (levels : Nat) : Counted α Unit :=
  fun cursor =>
    if maxNesting < (cursor.enter levels).depth then
      throw { cause := .tooDeep, offset := cursor.offset }
    else
      return ((), cursor.enter levels)

def leave (levels : Nat) : Counted α Unit :=
  fun cursor => return ((), cursor.leave levels)

def expect (mark : Mark) : Counted α (Lexeme α) :=
  fun cursor =>
    match cursor.lexemes[cursor.position]? with
    | some { token := .mark found, start, stop } =>
      if found = mark then
        return ({ token := .mark found, start, stop }, cursor.advance)
      else
        refuse (.expected mark) cursor
    | _ => refuse (.expected mark) cursor

def operator? (wanted : Operator → Bool) : Counted α (Option Operator) := do
  match ← peek with
  | some (.operator op) => return if wanted op then some op else none
  | _ => return none

def moreItems (expression : Counted α (Expr α)) : (bound : Nat) → Counted α (List (Expr α))
  | 0 => trap
  | bound + 1 => do
    match ← peek with
    | some (.mark .comma) => do
      advance
      let first ← expression
      let others ← moreItems expression bound
      return first :: others
    | _ => return []

def someItems (expression : Counted α (Expr α)) : Counted α (List (Expr α)) := do
  let first ← expression
  -- There cannot be more arguments than lexemes.
  let bound := (← get).rest.length + 1
  let others ← moreItems expression bound
  return first :: others

def items (expression : Counted α (Expr α)) : Counted α (List (Expr α)) := do
  match ← peek with
  | some (.mark .rightParen) => return []
  | _ => someItems expression

mutual

/--
Parse an expression of its own, which is one level deeper than what it stands in.

In this and the following functions, the recursion is given up when more levels are entered than
its height. The counter refuses before that happens.
-/
def expression : (height : Nat) → Counted α (Expr α)
  | 0 => trap
  | height + 1 => do
    enter 1
    let expr ← level (.chain .disjunction) height
    leave 1
    return expr
termination_by height => 10 * height
decreasing_by
  simp only [Level.rank]
  omega

def level (which : Level) (height : Nat) : Counted α (Expr α) :=
  match which with
  | .chain chain => do
    let left ← level chain.operands height
    joined chain left 0 height
  | .negation => do
    match ← peek with
    | some (.mark .not) =>
      match height with
      | 0 => trap
      | height + 1 => do
        advance
        enter 1
        let operand ← level .negation height
        leave 1
        return .not operand
    | _ => level .comparison height
  | .comparison => do
    let left ← level (.chain .sum) height
    match ← operator? Operator.compares with
    | none => return left
    | some op => do
      advance
      let right ← level (.chain .sum) height
      return .binary op left right
  | .minus => do
    match ← peek with
    | some (.operator .sub) =>
      match height with
      | 0 => trap
      | height + 1 => do
        advance
        enter 1
        let operand ← level .minus height
        leave 1
        return .neg operand
    | _ => level .operand height
  | .operand => operand height
termination_by 10 * height + 1 + which.rank
decreasing_by
  · have := Chain.rank_operands_lt chain
    omega
  all_goals simp +arith only [Level.rank]

/--
Parse the operands that follow the first ones of a chain, which has entered a level for each operand
but the first. At its end it leaves them all.
-/
def joined (chain : Chain) (left : Expr α) (levels height : Nat) : Counted α (Expr α) := do
  match ← operator? chain.joins with
  | none => do
    leave levels
    return left
  | some op =>
    match height with
    | 0 => trap
    | height + 1 => do
      advance
      enter 1
      let right ← level chain.operands height
      joined chain (.binary op left right) (levels + 1) height
termination_by 10 * height
decreasing_by
  all_goals have := Level.rank_le chain.operands
  all_goals omega

def operand (height : Nat) : Counted α (Expr α) := do
  let start := (← get).offset
  match ← peek with
  | some (.number value) => do
    advance
    return .number value
  | some (.mark .leftParen) => do
    advance
    let inner ← expression height
    let _ ← expect .rightParen
    return inner
  | some (.mark .ifWord) => do
    advance
    let condition ← expression height
    let _ ← expect .thenWord
    let whenTrue ← expression height
    let _ ← expect .elseWord
    let whenFalse ← expression height
    return .choose condition whenTrue whenFalse
  | some (.name name) => do
    advance
    match ← peek with
    | some (.mark .leftParen) =>
      match Extremum.ofName? name with
      | none => throw { cause := .unknownFunction name, offset := start }
      | some function => do
        advance
        let arguments ← items (expression height)
        let _ ← expect .rightParen
        if arguments.length < 2 then
          throw { cause := .tooFewArguments name, offset := start }
        else
          return .call function arguments
    | _ => return .var name
  | _ => refuse .unexpected
termination_by 10 * height + 1

end

end Counted

namespace Cursor

variable {cursor : Cursor α}

theorem getElem?_position (cursor : Cursor α) :
    cursor.lexemes[cursor.position]? = cursor.rest.head? := by
  rw [rest, List.head?_drop]

theorem token?_eq (cursor : Cursor α) : cursor.token? = cursor.rest.head?.map (·.token) := by
  rw [token?, getElem?_position]

theorem token?_of_rest {lexeme : Lexeme α} {lexemes : List (Lexeme α)}
    (h : cursor.rest = lexeme :: lexemes) : cursor.token? = some lexeme.token := by
  rw [token?_eq, h]
  rfl

theorem exists_rest_of_token? {t : Token α} (h : cursor.token? = some t) :
    ∃ lexeme lexemes, cursor.rest = lexeme :: lexemes ∧ lexeme.token = t := by
  rw [token?_eq] at h
  cases hrest : cursor.rest with
  | nil =>
    rw [hrest] at h
    cases h
  | cons lexeme lexemes =>
    rw [hrest] at h
    exact ⟨lexeme, lexemes, rfl, Option.some.inj h⟩

theorem offset_eq (cursor : Cursor α) :
    cursor.offset = Parser.offset cursor.stop cursor.rest := by
  rw [offset, getElem?_position]
  cases cursor.rest <;> rfl

@[simp]
theorem depth_enter (levels : Nat) (cursor : Cursor α) :
    (cursor.enter levels).depth = cursor.depth + levels :=
  rfl

theorem advance_of_rest {lexeme : Lexeme α} {lexemes : List (Lexeme α)}
    (h : cursor.rest = lexeme :: lexemes) :
    cursor.advance = { cursor with position := cursor.position + 1 } := by
  have hlength := congrArg List.length h
  rw [rest, List.length_drop, List.length_cons] at hlength
  exact if_pos (by omega)

theorem rest_advance {lexeme : Lexeme α} {lexemes : List (Lexeme α)}
    (h : cursor.rest = lexeme :: lexemes) : cursor.advance.rest = lexemes := by
  rw [advance_of_rest h, rest, ← List.tail_drop, ← rest, h, List.tail_cons]

end Cursor

/--
The levels that a cursor has to leave are left when it comes to another place. Nothing else has
changed, and on the way the counter was never too large and never drawn below zero.
-/
structure Unwinds (levels : Nat) (cursor after : Cursor α) : Prop where
  lexemes : after.lexemes = cursor.lexemes
  stop : after.stop = cursor.stop
  position_le : cursor.position ≤ after.position
  position_le_max : after.position ≤ max cursor.position cursor.lexemes.length
  depth : after.depth + levels = cursor.depth
  peak : after.peak ≤ max cursor.peak maxNesting
  overdrawn : after.overdrawn = cursor.overdrawn

/--
A cursor comes to a later place with the same counter.
-/
structure Restores (cursor after : Cursor α) : Prop extends Unwinds 0 cursor after where
  position_lt : cursor.position < after.position
  position_le_length : after.position ≤ after.lexemes.length

namespace Unwinds

variable {levels : Nat} {cursor after last : Cursor α}

theorem refl (cursor : Cursor α) : Unwinds 0 cursor cursor where
  lexemes := rfl
  stop := rfl
  position_le := Nat.le_refl _
  position_le_max := Nat.le_max_left _ _
  depth := rfl
  peak := Nat.le_max_left _ _
  overdrawn := rfl

theorem trans (h : Unwinds 0 cursor after) (h' : Unwinds levels after last) :
    Unwinds levels cursor last where
  lexemes := h'.lexemes.trans h.lexemes
  stop := h'.stop.trans h.stop
  position_le := Nat.le_trans h.position_le h'.position_le
  position_le_max := by
    have := h.position_le_max
    have hbound := h'.position_le_max
    rw [h.lexemes] at hbound
    omega
  depth := h'.depth.trans h.depth
  peak := by
    have := h.peak
    have := h'.peak
    omega
  overdrawn := h'.overdrawn.trans h.overdrawn

theorem advance (cursor : Cursor α) : Unwinds 0 cursor cursor.advance := by
  unfold Cursor.advance
  split
  next hlt =>
    constructor <;> try rfl
    · exact Nat.le_succ _
    · exact Nat.le_trans hlt (Nat.le_max_right _ _)
    · exact Nat.le_max_left _ _
  next => exact refl cursor

theorem leave (hle : levels ≤ cursor.depth) : Unwinds levels cursor (cursor.leave levels) where
  lexemes := rfl
  stop := rfl
  position_le := Nat.le_refl _
  position_le_max := Nat.le_max_left _ _
  depth := Nat.sub_add_cancel hle
  peak := Nat.le_max_left _ _
  overdrawn := by simp [Cursor.leave, Nat.not_lt.2 hle]

/--
To enter a level puts it on the account of the levels to leave.
-/
theorem of_enter (hlt : cursor.depth < maxNesting)
    (h : Unwinds (levels + 1) (cursor.enter 1) after) : Unwinds levels cursor after where
  lexemes := h.lexemes
  stop := h.stop
  position_le := h.position_le
  position_le_max := h.position_le_max
  depth := by
    have hdepth : after.depth + (levels + 1) = cursor.depth + 1 := h.depth
    omega
  peak := by
    have hpeak : after.peak ≤ max (max cursor.peak (cursor.depth + 1)) maxNesting := h.peak
    omega
  overdrawn := h.overdrawn

theorem length_rest_le (h : Unwinds levels cursor after) :
    after.rest.length ≤ cursor.rest.length := by
  rw [Cursor.rest, Cursor.rest, List.length_drop, List.length_drop, h.lexemes]
  exact Nat.sub_le_sub_left h.position_le _

theorem restores (h : Unwinds 0 cursor after) (hlt : cursor.position < after.position) :
    Restores cursor after where
  toUnwinds := h
  position_lt := hlt
  position_le_length := by
    have := h.position_le_max
    rw [h.lexemes]
    omega

end Unwinds

namespace Restores

variable {cursor after last : Cursor α}

theorem trans_unwinds (h : Restores cursor after) (h' : Unwinds 0 after last) :
    Restores cursor last :=
  (h.toUnwinds.trans h').restores (Nat.lt_of_lt_of_le h.position_lt h'.position_le)

theorem advance {lexeme : Lexeme α} {lexemes : List (Lexeme α)}
    (h : cursor.rest = lexeme :: lexemes) : Restores cursor cursor.advance := by
  apply (Unwinds.advance cursor).restores
  rw [Cursor.advance_of_rest h]
  exact Nat.lt_succ_self _

theorem leave (hlt : cursor.depth < maxNesting) (h : Restores (cursor.enter 1) after) :
    Restores cursor (after.leave 1) := by
  have hdepth : after.depth + 0 = cursor.depth + 1 := h.depth
  exact ((h.toUnwinds.trans (.leave (by omega))).of_enter hlt).restores h.position_lt

end Restores

/--
The levels that can still be entered at a cursor, and where its text ends.
-/
structure Cursor.Allows (stop depth : Nat) (cursor : Cursor α) : Prop where
  stop : cursor.stop = stop
  depth : cursor.depth + depth = maxNesting

namespace Cursor.Allows

variable {stop depth : Nat} {cursor after : Cursor α}

theorem of_unwinds (h : cursor.Allows stop depth) (hafter : Unwinds 0 cursor after) :
    after.Allows stop depth where
  stop := hafter.stop.trans h.stop
  depth := by
    have hdepth : after.depth = cursor.depth := hafter.depth
    rw [hdepth, h.depth]

theorem depth_lt (h : cursor.Allows stop (depth + 1)) : cursor.depth < maxNesting := by
  have := h.depth
  omega

theorem enter (h : cursor.Allows stop (depth + 1)) : (cursor.enter 1).Allows stop depth where
  stop := h.stop
  depth := by
    have := h.depth
    rw [depth_enter]
    omega

end Cursor.Allows

end Tariff.Formula
