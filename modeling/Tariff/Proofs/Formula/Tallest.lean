import Tariff.Proofs.Formula.Height
import Tariff.Proofs.Formula.Places
import Tariff.Proofs.Formula.Spelling

/-!
This module contains formulas that make the parser build its tallest trees, which shows that the
bound on their height cannot be lowered.

Such a formula spends all nesting on one chain after the other, from products out to disjunctions.
The first operand of the innermost chain is a call, whose first argument does the same again with
one level of nesting less.
-/

namespace Tariff.Formula

variable {α : Type}

def links (op : Operator) : (count : Nat) → List (Token α)
  | 0 => []
  | count + 1 => .operator op :: .name "x" :: links op count

def linked (op : Operator) : (count : Nat) → Expr α → Expr α
  | 0, left => left
  | count + 1, left => linked op count (.binary op left (.var "x"))

/--
An operand with all that `depth` levels of nesting allow behind it.
-/
def climb (depth : Nat) (first : List (Token α)) : List (Token α) :=
  first ++ links .mul depth ++ links .add depth ++ [.operator .lt, .name "x"] ++
    links .and depth ++ links .or depth

def climbed (depth : Nat) (first : Expr α) : Expr α :=
  linked .or depth (linked .and depth
    (.binary .lt (linked .add depth (linked .mul depth first)) (.var "x")))

/--
An operand that has the tallest tree possible with `depth` levels of nesting left.
-/
def tallOperand : (depth : Nat) → List (Token α)
  | 0 => [.name "x"]
  | depth + 1 =>
    .name "min" :: .mark .leftParen :: (climb depth (tallOperand depth) ++
      [.mark .comma, .name "x", .mark .rightParen])

def tallTree : (depth : Nat) → Expr α
  | 0 => .var "x"
  | depth + 1 => .call .min [climbed depth (tallTree depth), .var "x"]

theorem isName_x : IsName "x" := ⟨by decide, List.all_eq_true.1 (by decide)⟩

theorem isName_min : IsName "min" := ⟨by decide, List.all_eq_true.1 (by decide)⟩

theorem exists_tallOperand_eq (depth : Nat) :
    ∃ name us, tallOperand (α := α) depth = .name name :: us := by
  cases depth with
  | zero => exact ⟨_, _, rfl⟩
  | succ depth => exact ⟨_, _, rfl⟩

theorem exists_climb_eq {depth : Nat} {name : String} {first us : List (Token α)}
    (h : first = .name name :: us) : ∃ vs, climb depth first = .name name :: vs := by
  rw [h]
  exact ⟨_, rfl⟩

theorem height_linked (op : Operator) (count : Nat) (left : Expr α) :
    (linked op count left).height = left.height + count := by
  induction count generalizing left with
  | zero => rfl
  | succ count ih =>
    rw [linked, ih]
    simp only [Expr.height]
    omega

theorem height_climbed (depth : Nat) (first : Expr α) :
    (climbed depth first).height = first.height + (4 * depth + 1) := by
  rw [climbed]
  simp only [height_linked, Expr.height]
  omega

theorem height_tallTree (depth : Nat) :
    (tallTree (α := α) depth).height = Level.operand.maxHeight depth := by
  induction depth with
  | zero => rfl
  | succ depth ih =>
    rw [tallTree]
    simp only [Expr.height, Expr.greatestHeight, height_climbed, ih, Level.maxHeight,
      two_mul_succ_mul_succ]
    omega

/--
The level that a level parses when it finds no sign or operator of its own.
-/
def Level.tighter : Level → Level
  | .chain kind => kind.operands
  | .negation => .comparison
  | .comparison => .chain .sum
  | .minus | .operand => .operand

def Operator.level : Operator → Level
  | .or => .chain .disjunction
  | .and => .chain .conjunction
  | .lt | .le | .gt | .ge | .eq | .ne => .comparison
  | .add | .sub => .chain .sum
  | .mul | .div => .chain .product

/--
Whether a level, or one that binds tighter, does not go on with tokens.
-/
def Level.ends (which : Level) : List (Token α) → Bool
  | .operator op :: _ => which.rank < op.level.rank
  | .mark .leftParen :: _ => false
  | _ => true

/--
Tokens as lexemes without places, which the parser does not go by.
-/
def unplaced (ts : List (Token α)) : List (Lexeme α) :=
  ts.map fun t => { token := t, start := 0, stop := 0 }

theorem map_token_unplaced (ts : List (Token α)) : (unplaced ts).map (·.token) = ts := by
  simp [unplaced, Function.comp_def]

namespace Parser

/--
A level takes just these tokens for a tree, if it does not go on with those after them.
-/
def Takes (which : Level) (depth : Nat) (ts : List (Token α)) (e : Expr α) : Prop :=
  ∀ stop rest, which.ends rest = true →
    level stop which depth (unplaced (ts ++ rest)) = .ok (e, unplaced rest)

variable {which : Level} {depth : Nat} {ts : List (Token α)} {e : Expr α}

theorem operator?_unplaced {wanted : Operator → Bool} {rest : List (Token α)}
    (h : ∀ op us, rest = .operator op :: us → wanted op = false) :
    operator? wanted (unplaced rest) = none := by
  cases rest with
  | nil => rfl
  | cons t rest =>
    cases t with
    | operator op => simp [unplaced, operator?, h op rest rfl]
    | _ => rfl

theorem level_eq_of_joins {chain : Chain} {op : Operator} (h : chain.joins op = true) :
    op.level = .chain chain := by
  cases op <;> cases chain <;> first | rfl | cases h

theorem level_eq_of_compares {op : Operator} (h : op.compares = true) :
    op.level = .comparison := by
  cases op <;> first | rfl | cases h

theorem joins_eq_false_of_ends {chain : Chain} {rest : List (Token α)}
    (h : (Level.chain chain).ends rest = true) :
    ∀ op us, rest = .operator op :: us → chain.joins op = false := by
  rintro op us rfl
  simp only [Level.ends, decide_eq_true_eq] at h
  rw [Bool.eq_false_iff]
  intro hop
  rw [level_eq_of_joins hop] at h
  exact Nat.lt_irrefl _ h

theorem compares_eq_false_of_ends {rest : List (Token α)} (h : Level.comparison.ends rest = true) :
    ∀ op us, rest = .operator op :: us → op.compares = false := by
  rintro op us rfl
  simp only [Level.ends, decide_eq_true_eq] at h
  rw [Bool.eq_false_iff]
  intro hop
  rw [level_eq_of_compares hop] at h
  exact Nat.lt_irrefl _ h

theorem ends_of_rank_le {tighter looser : Level} {rest : List (Token α)}
    (hrank : tighter.rank ≤ looser.rank) (h : looser.ends rest = true) :
    tighter.ends rest = true := by
  unfold Level.ends at *
  split at h
  next =>
    simp only [decide_eq_true_eq] at *
    omega
  next => cases h
  next => rfl

namespace Takes

theorem of_tighter {name : String} {us : List (Token α)} (hts : ts = .name name :: us)
    (h : Takes which.tighter depth ts e) : Takes which depth ts e := by
  intro stop rest hrest
  cases which with
  | chain chain =>
    have hfirst : level stop chain.operands depth (unplaced (ts ++ rest)) =
        .ok (e, unplaced rest) :=
      h stop rest (ends_of_rank_le (Nat.le_of_lt (Chain.rank_operands_lt chain)) hrest)
    rw [level, hfirst, ok_bind]
    dsimp only
    rw [joined, operator?_unplaced (joins_eq_false_of_ends hrest)]
  | negation =>
    rw [level_of_no_sign .negation (by simp [hts, unplaced])]
    exact h stop rest (ends_of_rank_le (by decide) hrest)
  | comparison =>
    have hfirst : level stop (.chain .sum) depth (unplaced (ts ++ rest)) =
        .ok (e, unplaced rest) :=
      h stop rest (ends_of_rank_le (by decide) hrest)
    rw [level, hfirst, ok_bind]
    dsimp only
    rw [operator?_unplaced (compares_eq_false_of_ends hrest)]
    rfl
  | minus =>
    rw [level_of_no_sign .minus (by simp [hts, unplaced])]
    exact h stop rest (ends_of_rank_le (by decide) hrest)
  | operand => exact h stop rest hrest

theorem operand_var (depth : Nat) (name : String) :
    Takes (α := α) .operand depth [.name name] (.var name) := by
  intro stop rest hrest
  rw [level]
  unfold operand
  cases rest with
  | nil => rfl
  | cons t rest =>
    cases t with
    | mark mark =>
      cases mark with
      | leftParen => cases hrest
      | _ => rfl
    | _ => rfl

theorem var (which : Level) (depth : Nat) (name : String) :
    Takes (α := α) which depth [.name name] (.var name) := by
  by_cases hwhich : which = .operand
  · rw [hwhich]
    exact operand_var depth name
  · have hrank : which.tighter.rank < which.rank := by
      rcases which with ⟨_ | _ | _ | _⟩ | _ | _ | _ | _
      all_goals first | decide | exact absurd rfl hwhich
    exact of_tighter rfl (var which.tighter depth name)
termination_by which.rank

theorem ends_links_append {chain : Chain} {op : Operator} (hop : chain.joins op = true)
    {rest : List (Token α)} (hrest : (Level.chain chain).ends rest = true) (count : Nat) :
    chain.operands.ends (links op count ++ rest) = true := by
  have hrank := chain.rank_operands_lt
  cases count with
  | zero => exact ends_of_rank_le (Nat.le_of_lt hrank) hrest
  | succ count => simpa [links, Level.ends, level_eq_of_joins hop] using hrank

theorem joined_links {chain : Chain} {op : Operator} (hop : chain.joins op = true)
    {rest : List (Token α)} (hrest : (Level.chain chain).ends rest = true) (stop depth : Nat)
    (left : Expr α) : joined stop chain depth left (unplaced (links op depth ++ rest)) =
      .ok (linked op depth left, unplaced rest) := by
  induction depth generalizing left with
  | zero =>
    rw [joined, links, List.nil_append, operator?_unplaced (joins_eq_false_of_ends hrest)]
    rfl
  | succ depth ih =>
    have hnext : operator? chain.joins (unplaced (links op (depth + 1) ++ rest)) =
        some (op, unplaced ([.name "x"] ++ (links op depth ++ rest))) := by
      simp [links, unplaced, operator?, hop]
    have hright := var chain.operands depth "x" stop _ (ends_links_append hop hrest depth)
    rw [joined, hnext]
    dsimp only
    rw [hright, ok_bind]
    exact ih _

/--
A chain takes as many further operands as there are levels of nesting left.
-/
theorem chain {chain : Chain} {op : Operator} (hop : chain.joins op = true)
    (h : Takes chain.operands depth ts e) :
    Takes (.chain chain) depth (ts ++ links op depth) (linked op depth e) := by
  intro stop rest hrest
  rw [level, List.append_assoc, h stop _ (ends_links_append hop hrest depth), ok_bind]
  exact joined_links hop hrest stop depth e

theorem comparison (h : Takes (.chain .sum) depth ts e) :
    Takes .comparison depth (ts ++ [.operator .lt, .name "x"]) (.binary .lt e (.var "x")) := by
  intro stop rest hrest
  have hright := var (.chain .sum) depth "x" stop rest (ends_of_rank_le (by decide) hrest)
  rw [level, List.append_assoc, h stop _ rfl, ok_bind]
  have hnext : operator? Operator.compares
      (unplaced ([.operator .lt, .name "x"] ++ rest) : List (Lexeme α)) =
        some (.lt, unplaced ([.name "x"] ++ rest)) := rfl
  dsimp only
  rw [hnext]
  dsimp only
  rw [hright]
  rfl

theorem climb {name : String} {us : List (Token α)} (hts : ts = .name name :: us)
    (h : Takes .operand depth ts e) :
    Takes (.chain .disjunction) depth (climb depth ts) (climbed depth e) := by
  have hproduct : Takes (.chain .product) depth (ts ++ links .mul depth)
      (linked .mul depth e) := chain rfl (of_tighter hts h)
  have hsum : Takes (.chain .sum) depth (ts ++ links .mul depth ++ links .add depth)
      (linked .add depth (linked .mul depth e)) := chain rfl hproduct
  have hnegation : Takes .negation depth _ _ := of_tighter (by rw [hts]; rfl) (comparison hsum)
  exact chain rfl (chain rfl hnegation)

theorem items_pair {name : String} {us : List (Token α)} (hts : ts = .name name :: us)
    (h : Takes (.chain .disjunction) depth ts e) (stop : Nat) (rest : List (Token α)) :
    items (fun lexemes => expression stop (depth + 1) lexemes)
        (unplaced (ts ++ .mark .comma :: .name "x" :: .mark .rightParen :: rest)) =
      .ok ([e, .var "x"], unplaced (.mark .rightParen :: rest)) := by
  have hfirst := h stop (.mark .comma :: .name "x" :: .mark .rightParen :: rest) rfl
  have hsecond : expression stop (depth + 1) (unplaced (.name "x" :: .mark .rightParen :: rest)) =
      .ok (.var "x", unplaced (.mark .rightParen :: rest)) := by
    rw [expression]
    exact var (.chain .disjunction) depth "x" stop (.mark .rightParen :: rest) rfl
  have hmore : moreItems (fun lexemes => expression stop (depth + 1) lexemes)
      (unplaced (.mark .comma :: .name "x" :: .mark .rightParen :: rest)).length
      (unplaced (.mark .comma :: .name "x" :: .mark .rightParen :: rest)) =
        .ok ([.var "x"], unplaced (.mark .rightParen :: rest)) := by
    change expression stop (depth + 1) (unplaced (.name "x" :: .mark .rightParen :: rest)) >>= _ = _
    rw [hsecond]
    rfl
  have hitems : items (fun lexemes => expression stop (depth + 1) lexemes)
      (unplaced (ts ++ .mark .comma :: .name "x" :: .mark .rightParen :: rest)) = (do
        let first ← expression stop (depth + 1)
          (unplaced (ts ++ .mark .comma :: .name "x" :: .mark .rightParen :: rest))
        let others ← moreItems (fun lexemes => expression stop (depth + 1) lexemes)
          first.2.length first.2
        return (first.1 :: others.1, others.2)) := by
    rw [hts]
    rfl
  rw [hitems, expression, hfirst, ok_bind]
  dsimp only
  rw [hmore]
  rfl

theorem call {name : String} {us : List (Token α)} (hts : ts = .name name :: us)
    (h : Takes (.chain .disjunction) depth ts e) :
    Takes .operand (depth + 1) (.name "min" :: .mark .leftParen :: (ts ++
      [.mark .comma, .name "x", .mark .rightParen])) (.call .min [e, .var "x"]) := by
  intro stop rest _
  have hitems := items_pair hts h stop rest
  have hcall : level stop .operand (depth + 1) (unplaced (.name "min" :: .mark .leftParen ::
      (ts ++ .mark .comma :: .name "x" :: .mark .rightParen :: rest))) = (do
        let arguments ← items (fun lexemes => expression stop (depth + 1) lexemes)
          (unplaced (ts ++ .mark .comma :: .name "x" :: .mark .rightParen :: rest))
        let closed ← expect stop .rightParen arguments.2
        if arguments.1.length < 2 then
          .error { cause := .tooFewArguments "min", offset := 0 }
        else
          return (.call .min arguments.1, closed.2)) := by
    rw [level]
    unfold operand
    rfl
  rw [List.cons_append, List.cons_append, List.append_assoc]
  refine hcall.trans ?_
  rw [hitems]
  rfl

theorem tallOperand (depth : Nat) :
    Takes (α := α) .operand depth (tallOperand depth) (tallTree depth) := by
  induction depth with
  | zero => exact operand_var 0 "x"
  | succ depth ih =>
    obtain ⟨name, us, hfirst⟩ := exists_tallOperand_eq depth
    obtain ⟨vs, hclimb⟩ := exists_climb_eq hfirst
    exact call hclimb (climb hfirst ih)

end Takes

end Parser

theorem parseExpression_eq_ok_of_takes {ts : List (Token α)} {e : Expr α} {depth : Nat}
    (hdepth : depth + 1 = maxNesting) (h : Parser.Takes (.chain .disjunction) depth ts e)
    (stop : Nat) : parseExpression stop (unplaced ts) = .ok e := by
  have hlevel := h stop [] rfl
  rw [List.append_nil] at hlevel
  have hexpression : Parser.expression stop maxNesting (unplaced ts) = .ok (e, []) := by
    rw [← hdepth, Parser.expression]
    exact hlevel
  obtain ⟨us, hus, hderives⟩ := Parser.expression_reads stop maxNesting (unplaced ts) _ hexpression
  rw [List.map_nil, List.append_nil] at hus
  rw [parseExpression_eq_of_derives (hus ▸ hderives), hexpression]
  rfl

theorem isWritable_of_mem_links {op : Operator} {count : Nat} {t : Token α}
    (h : t ∈ links op count) : t.IsWritable := by
  induction count with
  | zero => cases h
  | succ count ih =>
    simp only [links, List.mem_cons] at h
    rcases h with rfl | rfl | h
    · trivial
    · exact isName_x
    · exact ih h

theorem isWritable_of_mem_climb {depth : Nat} {first : List (Token α)}
    (hfirst : ∀ t ∈ first, t.IsWritable) {t : Token α} (h : t ∈ climb depth first) :
    t.IsWritable := by
  simp only [climb, List.mem_append, List.mem_cons, List.not_mem_nil, or_false] at h
  rcases h with ((((h | h) | h) | (rfl | rfl)) | h) | h
  · exact hfirst t h
  · exact isWritable_of_mem_links h
  · exact isWritable_of_mem_links h
  · trivial
  · exact isName_x
  · exact isWritable_of_mem_links h
  · exact isWritable_of_mem_links h

theorem isWritable_of_mem_tallOperand {depth : Nat} {t : Token α} (h : t ∈ tallOperand depth) :
    t.IsWritable := by
  induction depth generalizing t with
  | zero =>
    obtain rfl := List.mem_singleton.1 h
    exact isName_x
  | succ depth ih =>
    simp only [tallOperand, List.mem_cons, List.mem_append, List.not_mem_nil, or_false] at h
    rcases h with rfl | rfl | h | rfl | rfl | rfl
    · exact isName_min
    · trivial
    · exact isWritable_of_mem_climb (fun _ => ih) h
    · trivial
    · exact isName_x
    · trivial

variable [Amount α]

theorem exists_parse_of_takes {depth : Nat} (hdepth : depth + 1 = maxNesting) {name : String}
    {us : List (Token α)} {e : Expr α} (hwritable : ∀ t ∈ Token.name name :: us, t.IsWritable)
    (h : Parser.Takes (.chain .disjunction) depth (.name name :: us) e) :
    ∃ source formula, Formula.parse (α := α) source = .ok formula ∧ formula.expr = e := by
  obtain ⟨cs, lexemes, hscans, hlexemes⟩ := exists_scans_of_isWritable hwritable 0
  have htokens : (unplaced (.name name :: us)).map (·.token) = lexemes.map (·.token) := by
    rw [map_token_unplaced, hlexemes]
  have hexpr : parseExpression (Text.byteLength cs) lexemes = .ok e :=
    parseExpression_eq_ok_of_tokens htokens (parseExpression_eq_ok_of_takes hdepth h 0)
  obtain ⟨start, stop, rest, rfl, hrest⟩ := exists_lexeme_of_map_token hlexemes
  refine ⟨.ofList cs, { key := none, body := .ofList cs, expr := e }, ?_, rfl⟩
  unfold Formula.parse
  simp only [String.toList_ofList, scan_eq_ok_iff.2 hscans, ok_bind, hexpr]
  rfl

theorem exists_parse_of_depth {depth : Nat} (hdepth : depth + 1 = maxNesting) :
    ∃ (source : String) (formula : Formula α), Formula.parse source = .ok formula ∧
      formula.expr.height = maxHeight (depth + 1) := by
  obtain ⟨name, us, hfirst⟩ := exists_tallOperand_eq (α := α) depth
  have htakes := Parser.Takes.climb hfirst (Parser.Takes.tallOperand depth)
  obtain ⟨vs, hclimb⟩ : ∃ vs, climb depth (tallOperand (α := α) depth) = .name name :: vs :=
    exists_climb_eq hfirst
  have hwritable : ∀ t ∈ climb depth (tallOperand (α := α) depth), t.IsWritable := by
    intro t
    exact isWritable_of_mem_climb fun _ => isWritable_of_mem_tallOperand
  rw [hclimb] at htakes hwritable
  obtain ⟨source, formula, hparse, hexpr⟩ := exists_parse_of_takes hdepth hwritable htakes
  refine ⟨source, formula, hparse, ?_⟩
  rw [hexpr, height_climbed, height_tallTree, maxHeight_succ]
  simp only [Level.maxHeight]
  omega

/--
Formulas can have trees as tall as the nesting allows and no taller ones.
-/
theorem isGreatest_height :
    IsGreatest {height | ∃ (source : String) (formula : Formula α),
        Formula.parse source = .ok formula ∧ formula.expr.height = height}
      (maxHeight maxNesting) := by
  constructor
  · exact exists_parse_of_depth rfl
  · rintro height ⟨source, formula, hparse, rfl⟩
    obtain ⟨stop, lexemes, hexpr⟩ := exists_parseExpression_of_parse hparse
    exact height_of_parseExpression hexpr

example : maxHeight maxNesting = 32767 := rfl

/--
A product whose first operand has used up all nesting. The product has it back.
-/
def wrappedMinus : String :=
  .ofList (List.replicate 127 '-' ++ "x*x*x".toList)

theorem height_wrappedMinus :
    ∃ formula : Formula Float, Formula.parse wrappedMinus = .ok formula ∧
      maxNesting < formula.expr.height := by
  obtain ⟨formula, hparse, hheight⟩ := exists_ok_of_any
    (p := fun formula => decide (maxNesting < formula.expr.height))
    (x := (Formula.parse wrappedMinus : Except (ParseError Float) _)) (by decide +kernel)
  exact ⟨formula, hparse, of_decide_eq_true hheight⟩

end Tariff.Formula
