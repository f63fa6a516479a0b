import Tariff.Formula.Parser

/-!
This module contains the grammar of formulas, production by production, and what can be read off it:
which tokens a phrase begins with and which it never holds.

A phrase can have several trees, because an operator after a choice may stand in its last branch or
next to the choice. The grammar allows both.
-/

namespace Tariff.Formula

variable {α : Type}

def Extremum.word : Extremum → String
  | .min => "min"
  | .max => "max"

/--
Tokens are a phrase of a level of the grammar, with an expression for a tree.
-/
inductive Derives : Level → List (Token α) → Expr α → Prop where
  -- Or ::= And ('or' And)*
  | conjunction {ts e} : Derives (.chain .conjunction) ts e → Derives (.chain .disjunction) ts e
  | or {ts us l r} : Derives (.chain .disjunction) ts l → Derives (.chain .conjunction) us r →
    Derives (.chain .disjunction) (ts ++ .operator .or :: us) (.binary .or l r)
  -- And ::= Not ('and' Not)*
  | negation {ts e} : Derives .negation ts e → Derives (.chain .conjunction) ts e
  | and {ts us l r} : Derives (.chain .conjunction) ts l → Derives .negation us r →
    Derives (.chain .conjunction) (ts ++ .operator .and :: us) (.binary .and l r)
  -- Not ::= 'not' Not | Cmp
  | not {ts e} : Derives .negation ts e → Derives .negation (.mark .not :: ts) (.not e)
  | comparison {ts e} : Derives .comparison ts e → Derives .negation ts e
  -- Cmp ::= Add [cmpop Add]
  | sum {ts e} : Derives (.chain .sum) ts e → Derives .comparison ts e
  | compare {ts us l r op} (hop : op ∈ [.lt, .le, .gt, .ge, .eq, .ne]) :
    Derives (.chain .sum) ts l → Derives (.chain .sum) us r →
    Derives .comparison (ts ++ .operator op :: us) (.binary op l r)
  -- Add ::= Mul (('+' | '-') Mul)*
  | product {ts e} : Derives (.chain .product) ts e → Derives (.chain .sum) ts e
  | add {ts us l r op} (hop : op ∈ [.add, .sub]) :
    Derives (.chain .sum) ts l → Derives (.chain .product) us r →
    Derives (.chain .sum) (ts ++ .operator op :: us) (.binary op l r)
  -- Mul ::= Unary (('*' | '/') Unary)*
  | minus {ts e} : Derives .minus ts e → Derives (.chain .product) ts e
  | mul {ts us l r op} (hop : op ∈ [.mul, .div]) :
    Derives (.chain .product) ts l → Derives .minus us r →
    Derives (.chain .product) (ts ++ .operator op :: us) (.binary op l r)
  -- Unary ::= '-' Unary | Primary
  | neg {ts e} : Derives .minus ts e → Derives .minus (.operator .sub :: ts) (.neg e)
  | operand {ts e} : Derives .operand ts e → Derives .minus ts e
  -- Primary ::= Number | Ident | '(' Expr ')' | 'if' Expr 'then' Expr 'else' Expr
  --   | ('min' | 'max') '(' Expr (',' Expr)+ ')'
  | number (value : α) : Derives .operand [.number value] (.number value)
  | var (name : String) : Derives .operand [.name name] (.var name)
  | parens {ts e} : Derives (.chain .disjunction) ts e →
    Derives .operand (.mark .leftParen :: ts ++ [.mark .rightParen]) e
  | choose {ts us vs c t f} : Derives (.chain .disjunction) ts c →
    Derives (.chain .disjunction) us t → Derives (.chain .disjunction) vs f →
    Derives .operand
      (.mark .ifWord :: ts ++ .mark .thenWord :: us ++ .mark .elseWord :: vs) (.choose c t f)
  | call (function : Extremum) (arguments : List (List (Token α) × Expr α))
    (hlength : 2 ≤ arguments.length)
    (harguments : ∀ argument ∈ arguments, Derives (.chain .disjunction) argument.1 argument.2) :
    Derives .operand
      (.name function.word :: .mark .leftParen ::
        [.mark .comma].intercalate (arguments.map (·.1)) ++ [.mark .rightParen])
      (.call function (arguments.map (·.2)))

/--
Tokens are a formula with a lookup key or without one.
-/
inductive DerivesFormula : List (Token α) → Option String → Expr α → Prop where
  | lookup {ts e} (key : String) : Derives (.chain .disjunction) ts e →
    DerivesFormula
      (.mark .lookup :: .mark .leftParen :: .name key :: .mark .rightParen :: .mark .leftBrace ::
        ts ++ [.mark .rightBrace]) (some key) e
  | bare {ts e} : Derives (.chain .disjunction) ts e → DerivesFormula ts none e

theorem Operator.compares_iff {op : Operator} :
    op.compares = true ↔ op ∈ [.lt, .le, .gt, .ge, .eq, .ne] := by
  cases op <;> decide

/--
Whether a phrase of a level can begin with a token. Prefix signs belong to certain levels and to all
that bind looser.
-/
def Level.begins (which : Level) : Token α → Bool
  | .number _ | .name _ | .mark .leftParen | .mark .ifWord => true
  | .operator .sub => Level.minus.rank ≤ which.rank
  | .mark .not => Level.negation.rank ≤ which.rank
  | _ => false

theorem Level.begins_of_rank_le {which looser : Level} {t : Token α}
    (hrank : which.rank ≤ looser.rank) (h : which.begins t = true) : looser.begins t = true := by
  unfold begins at *
  split at h
  case h_5 | h_6 =>
    simp only [decide_eq_true_eq] at *
    omega
  case h_7 => cases h
  all_goals rfl

/--
A level takes any number of signs in front of what a tighter level takes.
-/
inductive Level.TakesSign : Level → Token α → (Expr α → Expr α) → Level → Prop where
  | negation : TakesSign .negation (.mark .not) .not .comparison
  | minus : TakesSign .minus (.operator .sub) .neg .operand

theorem eq_or_mem_of_mem_intercalate {separator t : Token α} {parts : List (List (Token α))}
    (h : t ∈ [separator].intercalate parts) : t = separator ∨ ∃ part ∈ parts, t ∈ part := by
  induction parts with
  | nil => simp at h
  | cons part parts ih =>
    cases parts with
    | nil => exact .inr ⟨part, List.mem_cons_self, by simpa using h⟩
    | cons next parts =>
      rw [List.intercalate_cons_cons, List.mem_append, List.mem_append, List.mem_singleton] at h
      rcases h with (h | h) | h
      · exact .inr ⟨part, List.mem_cons_self, h⟩
      · exact .inl h
      · obtain hsep | ⟨found, hfound, ht⟩ := ih h
        · exact .inl hsep
        · exact .inr ⟨found, List.mem_cons_of_mem _ hfound, ht⟩

namespace Derives

variable {ts us : List (Token α)} {e l r : Expr α}

theorem single (chain : Chain) (h : Derives chain.operands ts e) :
    Derives (.chain chain) ts e := by
  cases chain with
  | disjunction => exact .conjunction h
  | conjunction => exact .negation h
  | sum => exact .product h
  | product => exact .minus h

theorem join {chain : Chain} {op : Operator} (hop : chain.joins op = true)
    (hl : Derives (.chain chain) ts l) (hr : Derives chain.operands us r) :
    Derives (.chain chain) (ts ++ .operator op :: us) (.binary op l r) := by
  cases chain with
  | disjunction =>
    cases op with
    | or => exact .or hl hr
    | _ => cases hop
  | conjunction =>
    cases op with
    | and => exact .and hl hr
    | _ => cases hop
  | sum =>
    cases op with
    | add | sub => exact .add (by decide) hl hr
    | _ => cases hop
  | product =>
    cases op with
    | mul | div => exact .mul (by decide) hl hr
    | _ => cases hop

theorem eq_single_or_join {chain : Chain} (h : Derives (.chain chain) ts e) :
    Derives chain.operands ts e ∨
      ∃ us vs op l r, ts = us ++ .operator op :: vs ∧ chain.joins op = true ∧
        Derives (.chain chain) us l ∧ Derives chain.operands vs r := by
  cases h with
  | conjunction h | negation h | product h | minus h => exact .inl h
  | or hl hr | and hl hr => exact .inr ⟨_, _, _, _, _, rfl, rfl, hl, hr⟩
  | add hop hl hr | mul hop hl hr =>
    refine .inr ⟨_, _, _, _, _, rfl, ?_, hl, hr⟩
    simp only [List.mem_cons, List.not_mem_nil, or_false] at hop
    rcases hop with rfl | rfl <;> rfl

theorem begins {which : Level} (h : Derives which ts e) :
    ∃ t us, ts = t :: us ∧ which.begins t = true := by
  induction h with
  | conjunction _ ih | negation _ ih | comparison _ ih | sum _ ih | product _ ih | minus _ ih
  | operand _ ih =>
    obtain ⟨t, us, rfl, ht⟩ := ih
    exact ⟨t, us, rfl, Level.begins_of_rank_le (by decide) ht⟩
  | or _ _ ih _ | and _ _ ih _ | compare _ _ _ ih _ | add _ _ _ ih _ | mul _ _ _ ih _ =>
    obtain ⟨t, us, rfl, ht⟩ := ih
    exact ⟨t, _, rfl, Level.begins_of_rank_le (by decide) ht⟩
  | not | neg | number | var | parens | choose | call => exact ⟨_, _, rfl, rfl⟩

theorem sign {which tighter : Level} {sign : Token α} {apply : Expr α → Expr α}
    (hsign : which.TakesSign sign apply tighter) (h : Derives which ts e) :
    Derives which (sign :: ts) (apply e) := by
  cases hsign with
  | negation => exact .not h
  | minus => exact .neg h

theorem unsigned {which tighter : Level} {sign : Token α} {apply : Expr α → Expr α}
    (hsign : which.TakesSign sign apply tighter) (h : Derives tighter ts e) :
    Derives which ts e := by
  cases hsign with
  | negation => exact .comparison h
  | minus => exact .operand h

theorem eq_sign_or_tighter {which tighter : Level} {sign : Token α} {apply : Expr α → Expr α}
    (hsign : which.TakesSign sign apply tighter) (h : Derives which ts e) :
    (∃ us operand, ts = sign :: us ∧ e = apply operand ∧ Derives which us operand) ∨
      Derives tighter ts e := by
  cases hsign with
  | negation =>
    cases h with
    | not h => exact .inl ⟨_, _, rfl, rfl, h⟩
    | comparison h => exact .inr h
  | minus =>
    cases h with
    | neg h => exact .inl ⟨_, _, rfl, rfl, h⟩
    | operand h => exact .inr h

/--
What a level takes behind its signs does not begin with one more of them.
-/
theorem append_ne_sign {which tighter : Level} {sign : Token α} {apply : Expr α → Expr α}
    (hsign : which.TakesSign sign apply tighter) (h : Derives tighter ts e)
    (us vs : List (Token α)) : ts ++ us ≠ sign :: vs := by
  obtain ⟨t, ts, rfl, ht⟩ := h.begins
  intro heq
  rw [(List.cons.inj heq).1] at ht
  cases hsign <;> cases ht

theorem lookup_not_mem {which : Level} (h : Derives which ts e) : .mark .lookup ∉ ts := by
  induction h with
  | conjunction _ ih | negation _ ih | comparison _ ih | sum _ ih | product _ ih | minus _ ih
  | operand _ ih => exact ih
  | or _ _ ihl ihr | and _ _ ihl ihr | compare _ _ _ ihl ihr | add _ _ _ ihl ihr
  | mul _ _ _ ihl ihr => simp [ihl, ihr]
  | not _ ih | neg _ ih | parens _ ih => simp [ih]
  | number | var => simp
  | choose _ _ _ ihc iht ihf => simp [ihc, iht, ihf]
  | call function arguments _ _ ih =>
    have harguments : .mark .lookup ∉ [.mark .comma].intercalate (arguments.map (·.1)) := by
      intro hmem
      rcases eq_or_mem_of_mem_intercalate hmem with hcomma | ⟨ts, hts, hmem⟩
      · cases hcomma
      · obtain ⟨argument, hargument, rfl⟩ := List.mem_map.1 hts
        exact ih argument hargument hmem
    simp [harguments]

end Derives

end Tariff.Formula
