import Tariff.Proofs.Fault
import Tariff.Proofs.Formula.Soundness
import Tariff.Proofs.Validate

/-!
This module contains the completeness of the parser: what the grammar derives is parsed, unless it
nests too deep.

The parser lets the last branch of a choice go on for as long as it can, while the grammar may end
the branch earlier and leave an operator to what the choice stands in. So the parser need not find
the tree of a derivation. What it does keep is that the tokens it leaves can still be used up by the
expressions around: they may not associate comparisons, which is the only thing that runs out, and
an expression that is continued for longer never has fewer comparisons left.
-/

namespace Tariff.Formula

variable {α β : Type}

def closes : List (Token α) → Bool
  | [] | .mark .rightParen :: _ | .mark .thenWord :: _ | .mark .elseWord :: _
  | .mark .comma :: _ => true
  | _ => false

/--
The comparisons that are left after an operand of a chain. Operands of looser chains may compare
themselves, so what is left to them afterwards are the comparisons around.
-/
def Chain.remaining (chain : Chain) (outer all : Nat) : Nat :=
  if Level.comparison.rank < (Level.chain chain).rank then outer else all

/--
Tokens go on after a phrase up to `close`: operators, each with an operand. `all` of them may
compare, `outer` of them in expressions around the innermost one that is open.
-/
inductive Tail (close : List (Token α)) : (outer all : Nat) → List (Token α) → Prop where
  | close {outer all} : Tail close outer all close
  | join {outer all op ts e us} (chain : Chain) (hop : chain.joins op = true) :
    Derives chain.operands ts e → Tail close outer (chain.remaining outer all) us →
    Tail close outer all (.operator op :: ts ++ us)
  | compare {outer all op ts e us} (hop : op.compares = true) :
    Derives (.chain .sum) ts e → Tail close all all us →
    Tail close outer (all + 1) (.operator op :: ts ++ us)

/--
Tokens do not begin with an operator that a level goes on with.
-/
def Leaves (which : Level) (ts : List (Token α)) : Prop :=
  ∀ op us, ts = .operator op :: us → ∀ chain : Chain, chain.joins op = true →
    which.rank < (Level.chain chain).rank

theorem Chain.joins_unique {chain chain' : Chain} {op : Operator} (h : chain.joins op = true)
    (h' : chain'.joins op = true) : chain = chain' := by
  cases op <;> cases chain <;> cases h <;> cases chain' <;> cases h' <;> rfl

theorem Chain.joins_eq_false_of_compares {op : Operator} (h : op.compares = true) (chain : Chain) :
    chain.joins op = false := by
  cases op <;> cases h <;> cases chain <;> rfl

theorem Chain.remaining_le {chain : Chain} {outer all outer' all' : Nat} (houter : outer ≤ outer')
    (hall : all ≤ all') : chain.remaining outer all ≤ chain.remaining outer' all' := by
  unfold remaining
  split
  · exact houter
  · exact hall

theorem Chain.remaining_eq {chain : Chain} {outer all : Nat}
    (h : Level.comparison.rank < (Level.chain chain).rank → all = outer) :
    chain.remaining outer all = all := by
  unfold remaining
  split
  next hrank => exact (h hrank).symm
  next => rfl

namespace Leaves

variable {ts : List (Token α)}

theorem of_rank_le {which : Level} (h : which.rank ≤ Level.minus.rank) : Leaves which ts := by
  intro op us _ chain _
  cases chain <;> simp only [Level.rank] at * <;> omega

theorem comparison (h : Leaves (.chain .sum) ts) : Leaves .comparison ts := by
  intro op us hts chain hchain
  have := h op us hts chain hchain
  cases chain <;> simp only [Level.rank] at * <;> omega

theorem negation (h : Leaves .comparison ts) : Leaves .negation ts := by
  intro op us hts chain hchain
  have := h op us hts chain hchain
  cases chain <;> simp only [Level.rank] at * <;> omega

theorem chain {chain : Chain} (h : Leaves chain.operands ts)
    (hop : ∀ op us, ts = .operator op :: us → chain.joins op = false) :
    Leaves (.chain chain) ts := by
  intro op us hts chain' hchain'
  have hrank := h op us hts chain' hchain'
  have hne : chain ≠ chain' := by
    rintro rfl
    rw [hop op us hts] at hchain'
    cases hchain'
  cases chain <;> cases chain' <;> simp_all [Level.rank, Chain.operands]

end Leaves

namespace Tail

variable {close ts us : List (Token α)} {outer all outer' all' : Nat}

theorem mono (h : Tail close outer all ts) (houter : outer ≤ outer') (hall : all ≤ all') :
    Tail close outer' all' ts := by
  induction h generalizing outer' all' with
  | close => exact .close
  | join chain hop hts _ ih =>
    exact .join chain hop hts (ih houter (Chain.remaining_le houter hall))
  | compare hop hts _ ih =>
    obtain ⟨all', rfl⟩ : ∃ n, all' = n + 1 := ⟨all' - 1, by omega⟩
    exact .compare hop hts (ih (by omega) (by omega))

theorem ne_leftParen (h : Tail close outer all ts) (hclose : closes close = true) :
    ts ≠ .mark .leftParen :: us := by
  rintro rfl
  cases h
  cases hclose

theorem of_join {chain : Chain} {op : Operator} (h : Tail close outer all (.operator op :: us))
    (hclose : closes close = true) (hop : chain.joins op = true) :
    ∃ ts e vs, us = ts ++ vs ∧ Derives chain.operands ts e ∧
      Tail close outer (chain.remaining outer all) vs := by
  cases h with
  | close => cases hclose
  | join chain' hop' hts hus =>
    obtain rfl := Chain.joins_unique hop hop'
    exact ⟨_, _, _, rfl, hts, hus⟩
  | compare hop' =>
    rw [Chain.joins_eq_false_of_compares hop'] at hop
    cases hop

theorem of_compare {op : Operator} (h : Tail close outer all (.operator op :: us))
    (hclose : closes close = true) (hop : op.compares = true) :
    ∃ n ts e vs, all = n + 1 ∧ us = ts ++ vs ∧ Derives (.chain .sum) ts e ∧
      Tail close n n vs := by
  cases h with
  | close => cases hclose
  | join chain hop' =>
    rw [Chain.joins_eq_false_of_compares hop] at hop'
    cases hop'
  | compare _ hts hus => exact ⟨_, _, _, _, rfl, rfl, hts, hus⟩

theorem eq_close (h : Tail close outer 0 ts) (hleaves : Leaves (.chain .disjunction) ts) :
    ts = close := by
  cases h with
  | close => rfl
  | join chain hop =>
    have := hleaves _ _ rfl chain hop
    cases chain <;> simp [Level.rank] at this

/--
Where no chain goes on, only the number of all comparisons counts.
-/
theorem of_leaves_disjunction (h : Tail close outer all ts)
    (hleaves : Leaves (.chain .disjunction) ts) : Tail close outer' all ts := by
  cases h with
  | close => exact .close
  | join chain hop =>
    have := hleaves _ _ rfl chain hop
    cases chain <;> simp [Level.rank] at this
  | compare hop hts hus => exact .compare hop hts hus

/--
Where neither a comparison nor a chain within one goes on, only the comparisons around count.
-/
theorem of_leaves_sum (h : Tail close outer all ts) (hleaves : Leaves (.chain .sum) ts)
    (hcompare : ∀ op us, ts = .operator op :: us → op.compares = false) :
    Tail close outer all' ts := by
  cases h with
  | close => exact .close
  | join chain hop hts hus =>
    have hrank := hleaves _ _ rfl chain hop
    refine .join chain hop hts ?_
    cases chain <;> simp_all [Level.rank, Chain.remaining]
  | compare hop =>
    rw [hcompare _ _ rfl] at hop
    cases hop

end Tail

def Viable (close : List (Token α)) (which : Level) (outer all : Nat) (lexemes : List (Lexeme α)) :
    Prop :=
  ∃ ts us e, lexemes.map (·.token) = ts ++ us ∧ Derives which ts e ∧ Tail close outer all us

theorem Viable.sum {close : List (Token α)} {all : Nat} {lexemes : List (Lexeme α)}
    (h : Viable close .comparison all all lexemes) :
    Viable close (.chain .sum) all (all + 1) lexemes := by
  obtain ⟨ts, us, e, hlexemes, hts, hus⟩ := h
  -- The comparison that the phrase may make is one that the tail of its first sum has left.
  cases hts with
  | sum hts => exact ⟨ts, us, e, hlexemes, hts, hus.mono (Nat.le_refl _) (Nat.le_succ _)⟩
  | compare hop hl hr =>
    exact ⟨_, _, _, by simpa using hlexemes, hl, .compare (Operator.compares_iff.2 hop) hr hus⟩

theorem Viable.operands {close : List (Token α)} {chain : Chain} {outer all : Nat}
    {lexemes : List (Lexeme α)} (h : Viable close (.chain chain) outer all lexemes)
    (hremaining : chain.remaining outer all = all) :
    Viable close chain.operands outer all lexemes := by
  obtain ⟨ts, us, e, hlexemes, hts, hus⟩ := h
  -- Operands of the chain move from the end of the phrase to the tail, one after the other.
  induction hn : ts.length using Nat.strongRecOn generalizing ts us e with
  | ind n ih =>
    rcases hts.eq_single_or_join with hts | ⟨ts, vs, op, l, r, rfl, hop, hl, hr⟩
    · exact ⟨ts, us, e, hlexemes, hts, hus⟩
    · refine ih ts.length (by simp at hn; omega) ts (.operator op :: vs ++ us) l ?_ hl ?_ rfl
      · simpa using hlexemes
      · exact .join chain hop hr (hremaining.symm ▸ hus)

namespace Parser

/--
A parse goes wrong only by nesting too deep, and what it gives meets a condition.
-/
def Completes (p : Parsed α β → Prop) (x : Parse α (Parsed α β)) : Prop :=
  FaultsIn (·.cause = .tooDeep) x ∧ Gives p x

namespace Completes

variable {γ : Type} {p : Parsed α β → Prop}

theorem ok {parsed : Parsed α β} (h : p parsed) : Completes p (.ok parsed) :=
  ⟨.ok _, .ok h⟩

theorem tooDeep (stop : Nat) (lexemes : List (Lexeme α)) :
    Completes p (tooDeep stop lexemes) :=
  ⟨.error rfl, .error _⟩

theorem imp {q : Parsed α β → Prop} {x : Parse α (Parsed α β)} (hx : Completes p x)
    (hpq : ∀ parsed, p parsed → q parsed) : Completes q x :=
  ⟨hx.1, hx.2.imp hpq⟩

theorem bind {q : Parsed α γ → Prop} {x : Parse α (Parsed α β)}
    {f : Parsed α β → Parse α (Parsed α γ)} (hx : Completes p x)
    (hf : ∀ parsed, p parsed → Completes q (f parsed)) : Completes q (x >>= f) := by
  constructor
  · apply FaultsIn.bind hx.1
    intro parsed hparsed
    exact (hf parsed (hx.2 parsed hparsed)).1
  · exact Gives.bind hx.2 fun parsed hparsed => (hf parsed hparsed).2

end Completes

/--
What a level leaves when it has been continued for as long as possible.
-/
def Continued (close : List (Token α)) (which : Level) (outer all : Nat)
    (parsed : Parsed α (Expr α)) : Prop :=
  Tail close outer all (parsed.2.map (·.token)) ∧ Leaves which (parsed.2.map (·.token))

theorem expect_completes {stop : Nat} {mark : Mark} {lexemes : List (Lexeme α)}
    {ts : List (Token α)} (h : lexemes.map (·.token) = .mark mark :: ts) :
    Completes (fun parsed => parsed.2.map (·.token) = ts) (expect stop mark lexemes) := by
  obtain ⟨s, t, rest, rfl, hrest⟩ := exists_lexeme_of_map_token h
  rw [expect_mark]
  exact .ok hrest

theorem operator?_eq_none {wanted : Operator → Bool} {lexemes : List (Lexeme α)}
    (h : operator? wanted lexemes = none) (op : Operator) (us : List (Token α))
    (hlexemes : lexemes.map (·.token) = .operator op :: us) : wanted op = false := by
  obtain ⟨s, t, rest, rfl, _⟩ := exists_lexeme_of_map_token hlexemes
  simpa [operator?] using h

/--
A parser of items takes a whole expression up to where it is closed.
-/
def TakesClosed (item : List (Lexeme α) → Parse α (Parsed α (Expr α))) : Prop :=
  ∀ {lexemes : List (Lexeme α)} {ts close : List (Token α)} {e : Expr α},
    lexemes.map (·.token) = ts ++ close → Derives (.chain .disjunction) ts e →
    closes close = true → Completes (fun parsed => parsed.2.map (·.token) = close) (item lexemes)

theorem moreItems_completes {item : List (Lexeme α) → Parse α (Parsed α (Expr α))}
    (hitem : TakesClosed item) {parts : List (List (Token α) × Expr α)}
    (hparts : ∀ part ∈ parts, Derives (.chain .disjunction) part.1 part.2) {us : List (Token α)}
    {bound : Nat} (hbound : parts.length ≤ bound) {lexemes : List (Lexeme α)}
    (hlexemes : lexemes.map (·.token) = commaSeparated parts ++ .mark .rightParen :: us) :
    Completes (fun parsed => parsed.1.length = parts.length ∧
        parsed.2.map (·.token) = .mark .rightParen :: us)
      (moreItems item bound lexemes) := by
  induction parts generalizing bound lexemes with
  | nil =>
    obtain ⟨s, t, rest, rfl, hrest⟩ := exists_lexeme_of_map_token hlexemes
    have hnone : moreItems item bound (⟨.mark .rightParen, s, t⟩ :: rest) =
        .ok ([], ⟨.mark .rightParen, s, t⟩ :: rest) := by
      cases bound <;> rfl
    rw [hnone]
    exact .ok ⟨rfl, hlexemes⟩
  | cons part parts ih =>
    obtain ⟨bound, rfl⟩ : ∃ n, bound = n + 1 := ⟨bound - 1, by simp at hbound; omega⟩
    simp only [commaSeparated, List.flatMap_cons, List.cons_append, List.append_assoc] at hlexemes
    obtain ⟨s, t, rest, rfl, hrest⟩ := exists_lexeme_of_map_token hlexemes
    rw [moreItems]
    refine (hitem hrest (hparts part List.mem_cons_self) ?_).bind ?_
    · cases parts <;> rfl
    · rintro ⟨first, lexemes'⟩ hlexemes'
      refine (ih (fun part hpart => hparts part (List.mem_cons_of_mem _ hpart))
        (by simpa using hbound) hlexemes').bind ?_
      rintro ⟨others, rest'⟩ ⟨hlength, hrest'⟩
      exact .ok ⟨by simpa using hlength, hrest'⟩

theorem length_le_length_commaSeparated (parts : List (List (Token α) × β)) :
    parts.length ≤ (commaSeparated parts).length := by
  induction parts with
  | nil => simp
  | cons part parts ih =>
    simp [commaSeparated] at *
    omega

theorem items_completes {item : List (Lexeme α) → Parse α (Parsed α (Expr α))}
    (hitem : TakesClosed item) {part : List (Token α) × Expr α}
    {parts : List (List (Token α) × Expr α)}
    (hparts : ∀ part' ∈ part :: parts, Derives (.chain .disjunction) part'.1 part'.2)
    {us : List (Token α)} {lexemes : List (Lexeme α)}
    (hlexemes : lexemes.map (·.token) =
      [.mark .comma].intercalate ((part :: parts).map (·.1)) ++ .mark .rightParen :: us) :
    Completes (fun parsed => parsed.1.length = (part :: parts).length ∧
        parsed.2.map (·.token) = .mark .rightParen :: us)
      (items item lexemes) := by
  rw [intercalate_eq_append_commaSeparated, List.append_assoc] at hlexemes
  have hpart := hparts part List.mem_cons_self
  obtain ⟨t, ts, hts, ht⟩ := hpart.begins
  unfold items
  split
  next =>
    simp only [hts, List.map_cons, List.cons_append, List.cons.injEq] at hlexemes
    rw [← hlexemes.1] at ht
    cases ht
  next =>
    refine (hitem hlexemes hpart ?_).bind ?_
    · cases parts <;> rfl
    · rintro ⟨first, lexemes'⟩ hlexemes'
      have hbound : parts.length ≤ lexemes'.length := by
        have := length_le_length_commaSeparated parts
        have := congrArg List.length hlexemes'
        simp at this
        omega
      refine (moreItems_completes hitem (fun part hpart => hparts part (.tail _ hpart))
        hbound hlexemes').bind ?_
      rintro ⟨others, rest⟩ ⟨hlength, hrest⟩
      exact .ok ⟨by simpa using hlength, hrest⟩

theorem Extremum.ofName?_word (function : Extremum) :
    Extremum.ofName? function.word = some function := by
  cases function <;> rfl

theorem Completes.closed {close : List (Token α)} {x : Parse α (Parsed α (Expr α))}
    (h : Completes (Continued close (.chain .disjunction) 0 0) x) :
    Completes (fun parsed => parsed.2.map (·.token) = close) x :=
  h.imp fun _ hparsed => hparsed.1.eq_close hparsed.2

theorem signed_completes {stop depth outer all : Nat} {which tighter : Level} {sign : Token α}
    {apply : Expr α → Expr α} {close : List (Token α)} {lexemes : List (Lexeme α)}
    (hsign : which.TakesSign sign apply tighter)
    (h : Viable close which outer all lexemes)
    (hoperand : ∀ {depth' : Nat} {rest : List (Lexeme α)}, depth = depth' + 1 →
      Viable close which outer all rest →
      Completes (Continued close which outer all) (level stop which depth' rest))
    (htighter : Viable close tighter outer all lexemes →
      Completes (Continued close which outer all) (level stop tighter depth lexemes)) :
    Completes (Continued close which outer all) (level stop which depth lexemes) := by
  obtain ⟨ts, us, e, hlexemes, hphrase, hus⟩ := h
  rcases hphrase.eq_sign_or_tighter hsign with ⟨ts, operand, rfl, rfl, hts⟩ | hts
  · obtain ⟨s, t, rest, rfl, hrest⟩ := exists_lexeme_of_map_token hlexemes
    rw [level_of_sign hsign]
    cases depth with
    | zero => apply Completes.tooDeep
    | succ depth =>
      refine (hoperand rfl ⟨ts, us, operand, hrest, hts, hus⟩).bind ?_
      rintro ⟨operand', rest'⟩ hparsed
      exact .ok hparsed
  · rw [level_of_no_sign hsign]
    · exact htighter ⟨ts, us, e, hlexemes, hts, hus⟩
    · intro vs hvs
      exact hts.append_ne_sign hsign us vs (hlexemes.symm.trans hvs)

mutual

theorem expression_completes {stop depth outer : Nat} {close : List (Token α)}
    {lexemes : List (Lexeme α)} (hclose : closes close = true)
    (h : Viable close (.chain .disjunction) outer outer lexemes) :
    Completes (Continued close (.chain .disjunction) outer outer)
      (expression stop depth lexemes) := by
  cases depth with
  | zero =>
    rw [expression]
    apply Completes.tooDeep
  | succ depth =>
    rw [expression]
    exact level_completes hclose h (Nat.le_refl _) fun _ => rfl
termination_by 10 * depth
decreasing_by
  simp only [Level.rank]
  omega

theorem level_completes {stop depth outer all : Nat} {which : Level} {close : List (Token α)}
    {lexemes : List (Lexeme α)} (hclose : closes close = true)
    (h : Viable close which outer all lexemes) (houter : outer ≤ all)
    (hall : Level.comparison.rank ≤ which.rank → all = outer) :
    Completes (Continued close which outer all) (level stop which depth lexemes) := by
  cases which with
  | chain chain =>
    have hrank := Chain.rank_operands_lt chain
    have hall' : Level.comparison.rank < (Level.chain chain).rank → all = outer :=
      fun h => hall (Nat.le_of_lt h)
    rw [level]
    refine (level_completes hclose (h.operands (Chain.remaining_eq hall')) houter fun h =>
      hall' (by omega)).bind ?_
    rintro ⟨left, lexemes'⟩ ⟨htail, hleaves⟩
    exact joined_completes hclose htail hleaves houter hall' left
  | negation =>
    refine signed_completes .negation h (fun hdepth hoperand => ?_) fun hcomparison => ?_
    · exact level_completes hclose hoperand houter hall
    · apply (level_completes hclose hcomparison houter fun _ => hall (by decide)).imp
      rintro _ ⟨htail, hleaves⟩
      exact ⟨htail, hleaves.negation⟩
  | comparison =>
    obtain rfl := hall (Nat.le_refl _)
    rw [level]
    refine (level_completes hclose h.sum (Nat.le_succ _) fun h => absurd h (by decide)).bind ?_
    rintro ⟨left, lexemes'⟩ ⟨htail, hleaves⟩
    dsimp only
    split
    next hnone =>
      exact .ok ⟨htail.of_leaves_sum hleaves (operator?_eq_none hnone), hleaves.comparison⟩
    next op lexemes'' hop =>
      obtain ⟨hcompares, ⟨_, s, t⟩, rfl, rfl⟩ := exists_lexeme_of_operator? hop
      obtain ⟨n, ts, e, us, hn, hlexemes'', hts, hus⟩ := htail.of_compare hclose hcompares
      obtain rfl : all = n := by omega
      refine (level_completes hclose ⟨ts, us, e, hlexemes'', hts, hus⟩ (Nat.le_refl _)
        fun h => absurd h (by decide)).bind ?_
      rintro ⟨right, rest⟩ ⟨htail, hleaves⟩
      exact .ok ⟨htail, hleaves.comparison⟩
  | minus =>
    refine signed_completes .minus h (fun hdepth hoperand => ?_) fun hoperand => ?_
    · exact level_completes hclose hoperand houter hall
    · apply (level_completes hclose hoperand houter fun h => absurd h (by decide)).imp
      rintro _ ⟨htail, _⟩
      exact ⟨htail, .of_rank_le (by decide)⟩
  | operand =>
    rw [level]
    exact operand_completes hclose h houter
termination_by 10 * depth + 1 + which.rank
decreasing_by
  all_goals subst_vars
  · omega
  · omega
  all_goals
    simp only [Level.rank]
    omega

theorem joined_completes {stop depth outer all : Nat} {chain : Chain} {close : List (Token α)}
    {lexemes : List (Lexeme α)} (hclose : closes close = true)
    (h : Tail close outer all (lexemes.map (·.token)))
    (hleaves : Leaves chain.operands (lexemes.map (·.token))) (houter : outer ≤ all)
    (hall : Level.comparison.rank < (Level.chain chain).rank → all = outer) (left : Expr α) :
    Completes (Continued close (.chain chain) outer all)
      (joined stop chain depth left lexemes) := by
  have hrank := Chain.rank_operands_lt chain
  rw [joined]
  split
  next hnone => exact .ok ⟨h, hleaves.chain (operator?_eq_none hnone)⟩
  next op lexemes' hop =>
    obtain ⟨hjoins, ⟨_, s, t⟩, rfl, rfl⟩ := exists_lexeme_of_operator? hop
    obtain ⟨ts, e, us, hlexemes', hts, hus⟩ := h.of_join hclose hjoins
    rw [Chain.remaining_eq hall] at hus
    split
    next => apply Completes.tooDeep
    next depth =>
      refine (level_completes hclose ⟨ts, us, e, hlexemes', hts, hus⟩ houter fun h =>
        hall (by omega)).bind ?_
      rintro ⟨right, lexemes''⟩ ⟨htail, hleaves⟩
      exact joined_completes hclose htail hleaves houter hall _
termination_by 10 * depth
decreasing_by
  all_goals have := Level.rank_le chain.operands
  all_goals omega

theorem operand_completes {stop depth outer all : Nat} {close : List (Token α)}
    {lexemes : List (Lexeme α)} (hclose : closes close = true)
    (h : Viable close .operand outer all lexemes) (houter : outer ≤ all) :
    Completes (Continued close .operand outer all) (operand stop depth lexemes) := by
  obtain ⟨ts, us, e, hlexemes, hts, hus⟩ := h
  cases hts with
  | number value =>
    obtain ⟨s, t, rest, rfl, rfl⟩ := exists_lexeme_of_map_token hlexemes
    rw [operand]
    exact .ok ⟨hus, .of_rank_le (by decide)⟩
  | var name =>
    obtain ⟨s, t, rest, rfl, rfl⟩ := exists_lexeme_of_map_token hlexemes
    rw [operand]
    · exact .ok ⟨hus, .of_rank_le (by decide)⟩
    · rintro _ _ _ rfl
      exact hus.ne_leftParen hclose rfl
  | parens hinner =>
    simp only [List.cons_append, List.append_assoc, List.nil_append] at hlexemes
    obtain ⟨s, t, rest, rfl, hrest⟩ := exists_lexeme_of_map_token hlexemes
    rw [operand]
    refine (Completes.closed (expression_completes rfl ⟨_, _, _, hrest, hinner, .close⟩)).bind ?_
    rintro ⟨inner, lexemes'⟩ hlexemes'
    refine (expect_completes hlexemes').bind ?_
    rintro ⟨_, rest'⟩ rfl
    exact .ok ⟨hus, .of_rank_le (by decide)⟩
  | choose hcondition hwhenTrue hwhenFalse =>
    simp only [List.cons_append, List.append_assoc] at hlexemes
    obtain ⟨s, t, rest, rfl, hrest⟩ := exists_lexeme_of_map_token hlexemes
    rw [operand]
    refine (Completes.closed (expression_completes rfl
      ⟨_, _, _, hrest, hcondition, .close⟩)).bind ?_
    rintro ⟨condition, lexemes₁⟩ hlexemes₁
    refine (expect_completes hlexemes₁).bind ?_
    rintro ⟨_, lexemes₂⟩ hlexemes₂
    refine (Completes.closed (expression_completes rfl
      ⟨_, _, _, hlexemes₂, hwhenTrue, .close⟩)).bind ?_
    rintro ⟨whenTrue, lexemes₃⟩ hlexemes₃
    refine (expect_completes hlexemes₃).bind ?_
    rintro ⟨_, lexemes₄⟩ hlexemes₄
    -- The last branch is open to the right: what goes on around it may go on in it.
    have hopen : Tail close all all us := hus.mono houter (Nat.le_refl _)
    refine (expression_completes hclose ⟨_, _, _, hlexemes₄, hwhenFalse, hopen⟩).bind ?_
    rintro ⟨whenFalse, rest'⟩ ⟨htail, hleaves⟩
    exact .ok ⟨htail.of_leaves_disjunction hleaves, .of_rank_le (by decide)⟩
  | call function arguments hlength harguments =>
    obtain _ | ⟨part, parts⟩ := arguments
    · cases hlength
    simp only [List.cons_append, List.append_assoc, List.nil_append] at hlexemes
    obtain ⟨s₁, t₁, _, rfl, hparen⟩ := exists_lexeme_of_map_token hlexemes
    obtain ⟨s₂, t₂, rest, rfl, hrest⟩ := exists_lexeme_of_map_token hparen
    rw [operand]
    simp only [Extremum.ofName?_word]
    refine (items_completes ?_ harguments hrest).bind ?_
    · intro lexemes ts close e hlexemes hts hclose
      exact Completes.closed (expression_completes hclose ⟨_, _, _, hlexemes, hts, .close⟩)
    · rintro ⟨values, lexemes'⟩ ⟨hvalues, hlexemes'⟩
      refine (expect_completes hlexemes').bind ?_
      rintro ⟨_, rest'⟩ rfl
      have : ¬values.length < 2 := by
        dsimp only at hvalues
        omega
      simp only [this, ↓reduceIte]
      exact .ok ⟨hus, .of_rank_le (by decide)⟩
termination_by 10 * depth + 1

end

end Parser

theorem parseExpression_eq_of_derives {lexemes : List (Lexeme α)} {e : Expr α}
    (h : Derives (.chain .disjunction) (lexemes.map (·.token)) e) (stop : Nat) :
    parseExpression stop lexemes = (do
      let (expr, rest) ← Parser.expression stop maxNesting lexemes
      match rest with
      | [] => return expr
      | lexeme :: _ => .error { cause := .trailing lexeme.token, offset := lexeme.start }) := by
  unfold parseExpression
  split
  next lexeme hfind =>
    have htoken : lexeme.token = .mark .lookup := by
      have := List.find?_some hfind
      split at this
      next heq => exact heq
      next => cases this
    have hmem := List.mem_map_of_mem (f := (·.token)) (List.mem_of_find?_eq_some hfind)
    rw [htoken] at hmem
    exact absurd hmem h.lookup_not_mem
  next =>
    split
    next hempty =>
      obtain ⟨t, ts, hts, _⟩ := h.begins
      simp [List.isEmpty_iff.1 hempty] at hts
    next => rfl

theorem parseExpression_faultsIn {lexemes : List (Lexeme α)} {e : Expr α}
    (h : Derives (.chain .disjunction) (lexemes.map (·.token)) e) (stop : Nat) :
    FaultsIn (·.cause = .tooDeep) (parseExpression stop lexemes) := by
  have hexpression : Parser.Completes (fun parsed => parsed.2.map (·.token) = [])
      (Parser.expression stop maxNesting lexemes) :=
    .closed (Parser.expression_completes rfl ⟨_, [], e, by simp, h, .close⟩)
  rw [parseExpression_eq_of_derives h]
  apply FaultsIn.bind hexpression.1
  rintro ⟨expr, rest⟩ hparsed
  obtain rfl : rest = [] := List.map_eq_nil_iff.1 (hexpression.2 _ hparsed)
  exact .ok expr

theorem parseLookup_faultsIn {key : String} {ts : List (Token α)} {e : Expr α}
    (h : Derives (.chain .disjunction) ts e) {lexemes : List (Lexeme α)}
    (hlexemes : lexemes.map (·.token) = .mark .leftParen :: .name key :: .mark .rightParen ::
      .mark .leftBrace :: (ts ++ [.mark .rightBrace])) (source : List Char) :
    FaultsIn (·.cause = .tooDeep) (parseLookup source lexemes) := by
  obtain ⟨s₁, t₁, _, rfl, h₁⟩ := exists_lexeme_of_map_token hlexemes
  obtain ⟨s₂, t₂, _, rfl, h₂⟩ := exists_lexeme_of_map_token h₁
  obtain ⟨s₃, t₃, _, rfl, h₃⟩ := exists_lexeme_of_map_token h₂
  obtain ⟨s₄, t₄, _, rfl, h₄⟩ := exists_lexeme_of_map_token h₃
  obtain ⟨body, last, rfl, rfl, hlast⟩ := List.map_eq_append_iff.1 h₄
  obtain ⟨s₅, t₅, _, rfl, hnil⟩ := exists_lexeme_of_map_token hlast
  obtain rfl := List.map_eq_nil_iff.1 hnil
  rw [parseLookup_wrapped]
  have hbody := parseExpression_faultsIn h s₅
  cases hexpr : parseExpression s₅ body with
  | error error => exact .error (hbody error hexpr)
  | ok expr => exact .ok _

theorem parse_faultsIn [Amount α] {source : String} {lexemes : List (Lexeme α)}
    (hscan : scan 0 source.toList = .ok lexemes) {key : Option String} {expr : Expr α}
    (h : DerivesFormula (lexemes.map (·.token)) key expr) :
    FaultsIn (·.cause = .tooDeep) (parse source : Except _ (Formula α)) := by
  unfold parse
  simp only [hscan, ok_bind]
  generalize htokens : lexemes.map (·.token) = tokens at h
  cases h with
  | lookup key hbody =>
    obtain ⟨s, t, rest, rfl, hrest⟩ := exists_lexeme_of_map_token htokens
    exact parseLookup_faultsIn hbody hrest source.toList
  | bare hexpr =>
    subst htokens
    split
    next rest _ =>
      exact absurd List.mem_cons_self hexpr.lookup_not_mem
    next =>
      apply FaultsIn.bind (parseExpression_faultsIn hexpr _)
      intro expr _
      exact .ok _

theorem parse_accepts_exactly_grammar [Amount α] {source : String} {lexemes : List (Lexeme α)}
    (hscan : scan 0 source.toList = .ok lexemes) :
    (∀ formula, parse source = .ok formula →
      DerivesFormula (lexemes.map (·.token)) formula.key formula.expr) ∧
    ((∃ key expr, DerivesFormula (lexemes.map (·.token)) key expr) →
      (∃ formula : Formula α, parse source = .ok formula) ∨
      ∃ error : ParseError α, parse source = .error error ∧ error.cause = .tooDeep) := by
  constructor
  · intro formula h
    exact derivesFormula_of_parse hscan h
  · rintro ⟨key, expr, h⟩
    have hfaults := parse_faultsIn hscan h
    cases hparse : (parse source : Except _ (Formula α)) with
    | error error => exact .inr ⟨error, rfl, hfaults error hparse⟩
    | ok formula => exact .inl ⟨formula, rfl⟩

def openChoice : String :=
  "lookup($n)\x7bif a then b else c < d < 2\x7d"

/--
The last branch of a choice takes the first comparison. The second one compares the choice.
-/
theorem parse_openChoice_derives :
    ∃ lexemes : List (Lexeme Float), scan 0 openChoice.toList = .ok lexemes ∧
    ∃ formula, parse openChoice = .ok formula ∧
      (formula.expr matches .binary .lt (.choose ..) (.number _)) = true ∧
      DerivesFormula (lexemes.map (·.token)) formula.key formula.expr := by
  obtain ⟨lexemes, hscan, _⟩ := exists_ok_of_any (p := fun _ => true)
    (x := (scan 0 openChoice.toList : Except (ParseError Float) _)) (by decide +kernel)
  obtain ⟨formula, hparse, hexpr⟩ := exists_ok_of_any
    (p := (·.expr matches .binary .lt (.choose ..) (.number _)))
    (x := (parse openChoice : Except (ParseError Float) _)) (by decide +kernel)
  refine ⟨lexemes, hscan, formula, hparse, hexpr, ?_⟩
  exact (parse_accepts_exactly_grammar hscan).1 formula hparse

end Tariff.Formula
