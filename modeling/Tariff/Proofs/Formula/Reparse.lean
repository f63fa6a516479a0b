import Tariff.Proofs.Formula.Printer

/-!
This module contains what the parser makes of printed expressions: it gives back the expression that
was printed if that has no more nesting than is allowed, and reports too much nesting otherwise.

Every level of the parser stops where the printed operand ends, because the tokens behind it do not
go on with the level. Chains are read from the left, so what is said of them has the parser for the
operators that follow as its continuation.
-/

namespace Tariff.Formula

variable {α β : Type}

namespace Parser

/--
A parse gives what meets a condition if there is room for its nesting, and reports too much nesting
otherwise.
-/
def CompletesIff (room : Prop) (p : Parsed α β → Prop) (x : Parse α (Parsed α β)) : Prop :=
  (room → ∃ parsed, x = .ok parsed ∧ p parsed) ∧
    (¬room → ∃ error, x = .error error ∧ error.cause = .tooDeep)

namespace CompletesIff

variable {γ : Type} {room more : Prop} {p : Parsed α β → Prop} {x : Parse α (Parsed α β)}

theorem ok {parsed : Parsed α β} (hroom : room) (h : p parsed) : CompletesIff room p (.ok parsed) :=
  ⟨fun _ => ⟨parsed, rfl, h⟩, fun hnot => absurd hroom hnot⟩

theorem tooDeep (hroom : ¬room) (stop : Nat) (lexemes : List (Lexeme α)) :
    CompletesIff room p (tooDeep stop lexemes) :=
  ⟨fun h => absurd h hroom, fun _ => ⟨_, rfl, rfl⟩⟩

theorem bind {q : Parsed α γ → Prop} {f : Parsed α β → Parse α (Parsed α γ)}
    (hx : CompletesIff room p x) (hf : ∀ parsed, p parsed → CompletesIff more q (f parsed)) :
    CompletesIff (room ∧ more) q (x >>= f) := by
  by_cases hroom : room
  · obtain ⟨parsed, rfl, hparsed⟩ := hx.1 hroom
    have hmore := hf parsed hparsed
    exact ⟨fun h => hmore.1 h.2, fun h => hmore.2 fun hmore => h ⟨hroom, hmore⟩⟩
  · obtain ⟨error, rfl, herror⟩ := hx.2 hroom
    exact ⟨fun h => absurd h.1 hroom, fun _ => ⟨error, rfl, herror⟩⟩

theorem congr {room' : Prop} (h : CompletesIff room p x) (hroom : room' ↔ room) :
    CompletesIff room' p x := by
  rwa [hroom]

theorem free {q : Parsed α γ → Prop} {f : Parsed α β → Parse α (Parsed α γ)}
    (hx : CompletesIff True p x) (hf : ∀ parsed, p parsed → CompletesIff room q (f parsed)) :
    CompletesIff room q (x >>= f) :=
  (hx.bind hf).congr (iff_of_eq (true_and room)).symm

theorem last {q : Parsed α γ → Prop} {f : Parsed α β → Parse α (Parsed α γ)}
    (hx : CompletesIff room p x) (hf : ∀ parsed, p parsed → CompletesIff True q (f parsed)) :
    CompletesIff room q (x >>= f) :=
  (hx.bind hf).congr (iff_of_eq (and_true room)).symm

end CompletesIff

def Leaving (e : Expr α) (us : List (Token α)) (parsed : Parsed α (Expr α)) : Prop :=
  parsed.1 = e ∧ parsed.2.map (·.token) = us

variable {which : Level} {e : Expr α} {ts us : List (Token α)} {lexemes : List (Lexeme α)}
  {stop depth need : Nat}

theorem expect_completesIff {mark : Mark} (h : lexemes.map (·.token) = .mark mark :: us) :
    CompletesIff True (fun parsed => parsed.2.map (·.token) = us) (expect stop mark lexemes) := by
  obtain ⟨s, t, rest, rfl, hrest⟩ := exists_lexeme_of_map_token h
  rw [expect_mark]
  exact .ok trivial hrest

theorem operator?_eq_none_of_map_token {wanted : Operator → Bool}
    (h : ∀ op us, lexemes.map (·.token) = .operator op :: us → wanted op = false) :
    operator? wanted lexemes = none := by
  unfold operator?
  split
  next op _ _ rest =>
    rw [h op _ rfl]
    rfl
  next => rfl

theorem ends_of_closes (which : Level) (h : closes us = true) : which.ends us = true := by
  unfold closes at h
  split at h
  all_goals first | rfl | cases h

theorem ne_sign_of_begins {sign t : Token α} (hlexemes : lexemes.map (·.token) = t :: ts)
    (ht : which.begins t = true) (hsign : which.begins sign = false) (ts' : List (Token α)) :
    lexemes.map (·.token) ≠ sign :: ts' := by
  intro h
  obtain rfl : t = sign := by
    rw [hlexemes, List.cons.injEq] at h
    exact h.1
  rw [hsign] at ht
  cases ht

/--
A level that finds neither a sign nor an operator of its own gives what the tighter one gives.
-/
theorem completesIff_of_tighter {room : Prop} {t : Token α}
    (hlexemes : lexemes.map (·.token) = t :: ts) (ht : which.tighter.begins t = true)
    (hus : which.ends us = true)
    (h : CompletesIff room (Leaving e us) (level stop which.tighter depth lexemes)) :
    CompletesIff room (Leaving e us) (level stop which depth lexemes) := by
  cases which with
  | chain chain =>
    rw [level]
    refine h.last ?_
    rintro ⟨left, rest⟩ ⟨rfl, rfl⟩
    have hnone := operator?_eq_none_of_map_token (joins_eq_false_of_ends hus)
    dsimp only at hnone ⊢
    rw [joined, hnone]
    exact .ok trivial ⟨rfl, rfl⟩
  | negation =>
    rw [level_of_no_sign .negation (ne_sign_of_begins hlexemes ht rfl)]
    exact h
  | comparison =>
    rw [level]
    refine h.last ?_
    rintro ⟨left, rest⟩ ⟨rfl, rfl⟩
    have hnone := operator?_eq_none_of_map_token (compares_eq_false_of_ends hus)
    dsimp only at hnone ⊢
    rw [hnone]
    exact .ok trivial ⟨rfl, rfl⟩
  | minus =>
    rw [level_of_no_sign .minus (ne_sign_of_begins hlexemes ht rfl)]
    exact h
  | operand => exact h

theorem completesIff_of_rank_le {room : Prop} {tight which : Level} {t : Token α}
    (hrank : tight.rank ≤ which.rank) (hlexemes : lexemes.map (·.token) = t :: ts)
    (ht : tight.begins t = true) (hus : which.ends us = true)
    (h : CompletesIff room (Leaving e us) (level stop tight depth lexemes)) :
    CompletesIff room (Leaving e us) (level stop which depth lexemes) := by
  rcases Level.eq_or_rank_le_tighter hrank with rfl | ⟨hrank, hlt⟩
  · exact h
  · apply completesIff_of_tighter hlexemes (Level.begins_of_rank_le hrank ht) hus
    exact completesIff_of_rank_le hrank hlexemes ht (ends_of_rank_le (Nat.le_of_lt hlt) hus) h
termination_by which.rank

/--
Tokens are a phrase of a level that the parser reads as an expression, going through an amount of
nesting and leaving the tokens behind.
-/
structure Rereads (which : Level) (ts : List (Token α)) (e : Expr α) (need : Nat) : Prop where
  derives : Derives which ts e
  completes {stop depth : Nat} {lexemes : List (Lexeme α)} {us : List (Token α)}
    (hlexemes : lexemes.map (·.token) = ts ++ us) (hus : which.ends us = true) :
    CompletesIff (need ≤ depth) (Leaving e us) (level stop which depth lexemes)

/--
Tokens are read as an expression of its own, up to where it is closed.
-/
structure RereadsWhole (ts : List (Token α)) (e : Expr α) (need : Nat) : Prop where
  derives : Derives (.chain .disjunction) ts e
  completes {stop depth : Nat} {lexemes : List (Lexeme α)} {us : List (Token α)}
    (hlexemes : lexemes.map (·.token) = ts ++ us) (hus : closes us = true) :
    CompletesIff (need < depth) (Leaving e us) (expression stop depth lexemes)

/--
Tokens are read as the front of a chain with a number of operators. Whatever the parser then makes
of the rest of the chain is what it makes of the chain.
-/
structure RereadsChain (chain : Chain) (ts : List (Token α)) (e : Expr α) (count need : Nat) :
    Prop where
  derives : Derives (.chain chain) ts e
  completes {stop depth : Nat} {lexemes : List (Lexeme α)} {us : List (Token α)} {room : Prop}
    {p : Parsed α (Expr α) → Prop} (hlexemes : lexemes.map (·.token) = ts ++ us)
    (hus : chain.operands.ends us = true)
    (hrest : count ≤ depth → ∀ rest, rest.map (·.token) = us →
      CompletesIff room p (joined stop chain (depth - count) e rest)) :
    CompletesIff (need ≤ depth ∧ room) p (level stop (.chain chain) depth lexemes)

namespace Rereads

variable {tight : Level} {chain : Chain} {op : Operator} {l r : Expr α} {n m : Nat}

theorem of_rank_le (h : Rereads tight ts e need) (hrank : tight.rank ≤ which.rank) :
    Rereads which ts e need := by
  refine ⟨h.derives.of_rank_le hrank, ?_⟩
  intro stop depth lexemes us hlexemes hus
  obtain ⟨t, ts', hts, ht⟩ := h.derives.begins
  have hfirst : lexemes.map (·.token) = t :: (ts' ++ us) := by
    rw [hlexemes, hts, List.cons_append]
  apply completesIff_of_rank_le hrank hfirst ht hus
  exact h.completes hlexemes (ends_of_rank_le hrank hus)

theorem whole (h : Rereads (.chain .disjunction) ts e need) : RereadsWhole ts e need := by
  refine ⟨h.derives, ?_⟩
  intro stop depth lexemes us hlexemes hus
  cases depth with
  | zero =>
    rw [expression]
    exact .tooDeep (Nat.not_lt_zero need) stop lexemes
  | succ depth =>
    rw [expression]
    exact (h.completes hlexemes (ends_of_closes _ hus)).congr Nat.lt_succ_iff

theorem number (value : α) : Rereads .operand [.number value] (.number value) 0 := by
  refine ⟨.number value, ?_⟩
  intro stop depth lexemes us hlexemes _
  obtain ⟨s, t, rest, rfl, hrest⟩ := exists_lexeme_of_map_token hlexemes
  rw [level, operand]
  exact .ok (Nat.zero_le depth) ⟨rfl, hrest⟩

theorem var (name : String) : Rereads (α := α) .operand [.name name] (.var name) 0 := by
  refine ⟨.var name, ?_⟩
  intro stop depth lexemes us hlexemes hus
  obtain ⟨s, t, rest, rfl, rfl⟩ := exists_lexeme_of_map_token hlexemes
  rw [level, operand]
  · exact .ok (Nat.zero_le depth) ⟨rfl, rfl⟩
  · rintro _ _ _ rfl
    cases hus

theorem sign {tighter : Level} {sign : Token α} {apply : Expr α → Expr α}
    (hsign : which.TakesSign sign apply tighter) (h : Rereads which ts e need) :
    Rereads which (sign :: ts) (apply e) (need + 1) := by
  refine ⟨h.derives.sign hsign, ?_⟩
  intro stop depth lexemes us hlexemes hus
  obtain ⟨s, t, rest, rfl, hrest⟩ := exists_lexeme_of_map_token hlexemes
  rw [level_of_sign hsign]
  cases depth with
  | zero => exact .tooDeep (Nat.not_succ_le_zero need) stop rest
  | succ depth =>
    refine ((h.completes hrest hus).congr Nat.succ_le_succ_iff).last ?_
    rintro ⟨operand, rest'⟩ ⟨rfl, hrest'⟩
    exact .ok trivial ⟨rfl, hrest'⟩

theorem compare (hop : op.compares = true) (hl : Rereads (.chain .sum) ts l n)
    (hr : Rereads (.chain .sum) us r m) :
    Rereads .comparison (ts ++ .operator op :: us) (.binary op l r) (max n m) := by
  refine ⟨.compare (Operator.compares_iff.1 hop) hl.derives hr.derives, ?_⟩
  intro stop depth lexemes vs hlexemes hvs
  have hends : (Level.chain .sum).ends (.operator op :: us ++ vs) = true := by
    simp [Level.ends, level_eq_of_compares hop, Level.rank]
  rw [level]
  refine ((hl.completes (by simpa using hlexemes) hends).bind ?_).congr max_le_iff
  rintro ⟨left, lexemes'⟩ ⟨rfl, hlexemes'⟩
  obtain ⟨s, t, rest, hfirst, hrest⟩ := exists_lexeme_of_map_token hlexemes'
  dsimp only at hfirst ⊢
  rw [hfirst, operator?, if_pos hop]
  dsimp only
  refine (hr.completes hrest (ends_of_rank_le (by decide) hvs)).last ?_
  rintro ⟨right, rest'⟩ ⟨rfl, hrest'⟩
  exact .ok trivial ⟨rfl, hrest'⟩

theorem front (h : Rereads chain.operands ts e need) : RereadsChain chain ts e 0 need := by
  refine ⟨h.derives.single, ?_⟩
  intro stop depth lexemes us room p hlexemes hus hrest
  rw [level]
  refine (h.completes hlexemes hus).bind ?_
  rintro ⟨left, rest⟩ ⟨rfl, hleft⟩
  exact hrest (Nat.zero_le depth) rest hleft

end Rereads

namespace RereadsChain

variable {chain : Chain} {op : Operator} {l r : Expr α} {count n m : Nat}

theorem join (hop : chain.joins op = true) (hl : RereadsChain chain ts l count n)
    (hr : Rereads chain.operands us r m) :
    RereadsChain chain (ts ++ .operator op :: us) (.binary op l r) (count + 1)
      (max n (count + 1 + m)) := by
  refine ⟨hl.derives.join hop hr.derives, ?_⟩
  intro stop depth lexemes vs room p hlexemes hvs hmore
  have hends : chain.operands.ends (.operator op :: us ++ vs) = true := by
    simpa [Level.ends, level_eq_of_joins hop] using chain.rank_operands_lt
  have hrooms : max n (count + 1 + m) ≤ depth ∧ room ↔
      n ≤ depth ∧ count + 1 + m ≤ depth ∧ room := by
    rw [max_le_iff, and_assoc]
  refine (hl.completes (by simpa using hlexemes) hends ?_).congr hrooms
  -- The operators before this one have used up `count` levels.
  intro hcount lexemes' hlexemes'
  obtain ⟨s, t, rest, rfl, hrest⟩ := exists_lexeme_of_map_token hlexemes'
  rw [joined, operator?, if_pos hop]
  dsimp only
  cases hdepth : depth - count with
  | zero => exact .tooDeep (fun h => by omega) stop rest
  | succ left =>
    have hleft : left = depth - (count + 1) := by omega
    have hroom : count + 1 + m ≤ depth ↔ m ≤ left := by omega
    refine ((hr.completes hrest hvs).bind ?_).congr (by rw [hroom])
    rintro ⟨right, rest'⟩ ⟨rfl, hrest'⟩
    rw [hleft]
    exact hmore (by omega) rest' hrest'

theorem rereads (h : RereadsChain chain ts e count need) : Rereads (.chain chain) ts e need := by
  refine ⟨h.derives, ?_⟩
  intro stop depth lexemes us hlexemes hus
  have hends := ends_of_rank_le (Nat.le_of_lt chain.rank_operands_lt) hus
  refine (h.completes hlexemes hends ?_).congr (iff_of_eq (and_true (need ≤ depth))).symm
  rintro _ rest rfl
  rw [joined, operator?_eq_none_of_map_token (joins_eq_false_of_ends hus)]
  exact .ok trivial ⟨rfl, rfl⟩

end RereadsChain

namespace RereadsWhole

variable {vs : List (Token α)} {c t f : Expr α} {n m k : Nat}

theorem parens (h : RereadsWhole ts e need) :
    Rereads .operand (.mark .leftParen :: ts ++ [.mark .rightParen]) e (need + 1) := by
  refine ⟨.parens h.derives, ?_⟩
  intro stop depth lexemes us hlexemes _
  simp only [List.cons_append, List.append_assoc, List.nil_append] at hlexemes
  obtain ⟨s, t, rest, rfl, hrest⟩ := exists_lexeme_of_map_token hlexemes
  rw [level, operand]
  refine (h.completes hrest rfl).last ?_
  rintro ⟨inner, lexemes'⟩ ⟨rfl, hlexemes'⟩
  refine (expect_completesIff hlexemes').last ?_
  rintro ⟨_, rest'⟩ hrest'
  exact .ok trivial ⟨rfl, hrest'⟩

/--
A choice is read up to where it is closed. Its last branch would go on with anything else.
-/
theorem choose (hc : RereadsWhole ts c n) (ht : RereadsWhole us t m) (hf : RereadsWhole vs f k) :
    RereadsWhole (.mark .ifWord :: ts ++ .mark .thenWord :: us ++ .mark .elseWord :: vs)
      (.choose c t f) (max n (max m k) + 1) := by
  have hderives := Derives.choose hc.derives ht.derives hf.derives
  refine ⟨hderives.of_rank_le (by decide), ?_⟩
  intro stop depth lexemes ws hlexemes hws
  cases depth with
  | zero =>
    rw [expression]
    exact .tooDeep (Nat.not_lt_zero _) stop lexemes
  | succ depth =>
    rw [expression]
    refine completesIff_of_rank_le (Level.rank_operand_le _) hlexemes rfl
      (ends_of_closes _ hws) ?_
    simp only [List.cons_append, List.append_assoc] at hlexemes
    obtain ⟨s, t, rest, rfl, hrest⟩ := exists_lexeme_of_map_token hlexemes
    have hroom : max n (max m k) + 1 < depth + 1 ↔ n < depth ∧ m < depth ∧ k < depth := by
      rw [Nat.add_lt_add_iff_right, max_lt_iff, max_lt_iff]
    rw [level, operand]
    refine CompletesIff.congr ?_ hroom
    refine (hc.completes hrest rfl).bind ?_
    rintro ⟨condition, lexemes₁⟩ ⟨rfl, hlexemes₁⟩
    refine (expect_completesIff hlexemes₁).free ?_
    rintro ⟨_, lexemes₂⟩ hlexemes₂
    refine (ht.completes hlexemes₂ rfl).bind ?_
    rintro ⟨whenTrue, lexemes₃⟩ ⟨rfl, hlexemes₃⟩
    refine (expect_completesIff hlexemes₃).free ?_
    rintro ⟨_, lexemes₄⟩ hlexemes₄
    refine (hf.completes hlexemes₄ hws).last ?_
    rintro ⟨whenFalse, rest'⟩ ⟨rfl, hrest'⟩
    exact .ok trivial ⟨rfl, hrest'⟩

end RereadsWhole

section Arguments

variable {item : List (Lexeme α) → Parse α (Parsed α (Expr α))} {depth : Nat}

def TakesPrinted (item : List (Lexeme α) → Parse α (Parsed α (Expr α))) (depth : Nat)
    (e : Expr α) : Prop :=
  ∀ {lexemes : List (Lexeme α)} {us : List (Token α)}, lexemes.map (·.token) = e.tokens ++ us →
    closes us = true → CompletesIff (e.nesting < depth) (Leaving e us) (item lexemes)

def printed (exprs : List (Expr α)) : List (List (Token α) × Expr α) :=
  exprs.map fun e => (e.tokens, e)

theorem moreItems_completesIff {exprs : List (Expr α)}
    (hitem : ∀ e ∈ exprs, TakesPrinted item depth e) {bound : Nat} (hbound : exprs.length ≤ bound)
    (hlexemes : lexemes.map (·.token) =
      commaSeparated (printed exprs) ++ .mark .rightParen :: us) :
    CompletesIff (∀ e ∈ exprs, e.nesting < depth)
      (fun parsed => parsed.1 = exprs ∧ parsed.2.map (·.token) = .mark .rightParen :: us)
      (moreItems item bound lexemes) := by
  induction exprs generalizing bound lexemes with
  | nil =>
    obtain ⟨s, t, rest, rfl, hrest⟩ := exists_lexeme_of_map_token hlexemes
    have hnone : moreItems item bound (⟨.mark .rightParen, s, t⟩ :: rest) =
        .ok ([], ⟨.mark .rightParen, s, t⟩ :: rest) := by
      cases bound <;> rfl
    rw [hnone]
    exact .ok (by simp) ⟨rfl, hlexemes⟩
  | cons e exprs ih =>
    obtain ⟨bound, rfl⟩ : ∃ n, bound = n + 1 := ⟨bound - 1, by simp at hbound; omega⟩
    simp only [printed, List.map_cons, commaSeparated, List.flatMap_cons, List.cons_append,
      List.append_assoc] at hlexemes
    obtain ⟨s, t, rest, rfl, hrest⟩ := exists_lexeme_of_map_token hlexemes
    have hfirst := hitem e List.mem_cons_self hrest (by cases exprs <;> rfl)
    rw [moreItems]
    refine (hfirst.bind ?_).congr List.forall_mem_cons
    rintro ⟨first, lexemes'⟩ ⟨rfl, hlexemes'⟩
    refine (ih (fun e he => hitem e (List.mem_cons_of_mem _ he)) (by simpa using hbound)
      hlexemes').last ?_
    rintro ⟨others, rest'⟩ ⟨rfl, hrest'⟩
    exact .ok trivial ⟨rfl, hrest'⟩

theorem items_completesIff {e : Expr α} {exprs : List (Expr α)} (hbegins : ∃ t ts,
      e.tokens = t :: ts ∧ (Level.chain .disjunction).begins t = true)
    (hitem : ∀ e' ∈ e :: exprs, TakesPrinted item depth e')
    (hlexemes : lexemes.map (·.token) =
      [.mark .comma].intercalate ((printed (e :: exprs)).map (·.1)) ++ .mark .rightParen :: us) :
    CompletesIff (∀ e' ∈ e :: exprs, e'.nesting < depth)
      (fun parsed => parsed.1 = e :: exprs ∧ parsed.2.map (·.token) = .mark .rightParen :: us)
      (items item lexemes) := by
  rw [printed, List.map_cons, intercalate_eq_append_commaSeparated, List.append_assoc] at hlexemes
  obtain ⟨t, ts, hts, ht⟩ := hbegins
  unfold items
  split
  next =>
    simp only [hts, List.map_cons, List.cons_append, List.cons.injEq] at hlexemes
    rw [← hlexemes.1] at ht
    cases ht
  next =>
    have hfirst := hitem e List.mem_cons_self hlexemes (by cases exprs <;> rfl)
    refine (hfirst.bind ?_).congr List.forall_mem_cons
    rintro ⟨first, lexemes'⟩ ⟨rfl, hlexemes'⟩
    have hbound : exprs.length ≤ lexemes'.length := by
      have hseparated := length_le_length_commaSeparated (printed exprs)
      have hlength := congrArg List.length hlexemes'
      simp only [printed, List.length_map, List.length_append] at hseparated hlength
      omega
    refine (moreItems_completesIff (fun e he => hitem e (List.mem_cons_of_mem _ he)) hbound
      hlexemes').last ?_
    rintro ⟨others, rest⟩ ⟨rfl, hrest⟩
    exact .ok trivial ⟨rfl, hrest⟩

theorem Rereads.call (function : Extremum) {arguments : List (Expr α)}
    (hlength : 2 ≤ arguments.length)
    (h : ∀ e ∈ arguments, RereadsWhole e.tokens e e.nesting) :
    Rereads .operand (.name function.word :: .mark .leftParen ::
        [.mark .comma].intercalate (Expr.tokensOfEach arguments) ++ [.mark .rightParen])
      (.call function arguments) (Expr.greatestNesting arguments + 1) := by
  have htokens : Expr.tokensOfEach arguments = (printed arguments).map (·.1) := by
    simp [Expr.tokensOfEach_eq_map, printed, Function.comp_def]
  have hexprs : (printed arguments).map (·.2) = arguments := by
    simp [printed, Function.comp_def]
  have hderives : ∀ part ∈ printed arguments, Derives (.chain .disjunction) part.1 part.2 := by
    intro part hpart
    obtain ⟨e, he, rfl⟩ := List.mem_map.1 hpart
    exact (h e he).derives
  have hcall := Derives.call function (printed arguments) (by simpa [printed]) hderives
  rw [hexprs] at hcall
  rw [htokens]
  refine ⟨hcall, ?_⟩
  intro stop depth lexemes us hlexemes _
  simp only [List.cons_append, List.append_assoc, List.nil_append] at hlexemes
  obtain ⟨s₁, t₁, _, rfl, hparen⟩ := exists_lexeme_of_map_token hlexemes
  obtain ⟨s₂, t₂, rest, rfl, hrest⟩ := exists_lexeme_of_map_token hparen
  obtain _ | ⟨e, exprs⟩ := arguments
  · cases hlength
  rw [level, operand]
  simp only [Extremum.ofName?_word]
  have htakes : ∀ e' ∈ e :: exprs,
      TakesPrinted (fun lexemes => expression stop depth lexemes) depth e' :=
    fun e' he' => (h e' he').completes
  have hitems := items_completesIff (h e List.mem_cons_self).derives.begins htakes hrest
  have hroom : Expr.greatestNesting (e :: exprs) < depth ↔
      ∀ e' ∈ e :: exprs, e'.nesting < depth :=
    Expr.greatestNesting_lt_iff (List.cons_ne_nil e exprs)
  refine (hitems.congr hroom).last ?_
  rintro ⟨values, lexemes'⟩ ⟨rfl, hlexemes'⟩
  refine (expect_completesIff hlexemes').last ?_
  rintro ⟨_, rest'⟩ hrest'
  have : ¬(e :: exprs).length < 2 := by omega
  simp only [this, ↓reduceIte]
  exact .ok trivial ⟨rfl, hrest'⟩

end Arguments

/--
The parser reads the tokens of an expression as that expression wherever it stands.
-/
structure Reprints (e : Expr α) : Prop where
  operand (which : Level) : Rereads which (e.tokensAt which) e (e.nestingAt which)
  chain (chain : Chain) : RereadsChain chain (e.tokensAt (.chain chain)) e (e.chained chain)
    (e.nestingAt (.chain chain))
  whole : RereadsWhole e.tokens e e.nesting

namespace Reprints

theorem rereads_tokensAt (hown : e.fits e.level = true → Rereads e.level e.tokens e e.nesting)
    (hwhole : RereadsWhole e.tokens e e.nesting) (which : Level) :
    Rereads which (e.tokensAt which) e (e.nestingAt which) := by
  unfold Expr.tokensAt Expr.nestingAt enclose deepen
  split
  next hfits =>
    obtain ⟨hfits, hrank⟩ := Expr.fits_iff.1 hfits
    exact (hown hfits).of_rank_le hrank
  next => exact hwhole.parens.of_rank_le which.rank_operand_le

theorem of_whole (hown : e.fits e.level = true → Rereads e.level e.tokens e e.nesting)
    (hchain : ∀ chain, e.level = .chain chain →
      RereadsChain chain e.tokens e (e.chained chain) e.nesting)
    (hwhole : RereadsWhole e.tokens e e.nesting) : Reprints e := by
  have hoperand := rereads_tokensAt hown hwhole
  refine ⟨hoperand, ?_, hwhole⟩
  intro chain
  by_cases hlevel : e.level = .chain chain
  · have hfits : e.fits (.chain chain) = true := Expr.fits_of_level_eq_chain hlevel
    rw [Expr.tokensAt, Expr.nestingAt, hfits]
    exact hchain chain hlevel
  · have hfits : e.fits (.chain chain) = e.fits chain.operands := Expr.fits_chain_eq hlevel
    rw [Expr.tokensAt, Expr.nestingAt, hfits, Expr.chained_eq_zero hlevel]
    exact (hoperand chain.operands).front

theorem of_own (h : Rereads e.level e.tokens e e.nesting)
    (hchain : ∀ chain, e.level = .chain chain →
      RereadsChain chain e.tokens e (e.chained chain) e.nesting) : Reprints e := by
  have hloosest : Rereads (.chain .disjunction) e.tokens e e.nesting :=
    h.of_rank_le e.level.rank_le
  exact of_whole (fun _ => h) hchain hloosest.whole

theorem binary_of_joins {chain : Chain} {op : Operator} (hop : chain.joins op = true)
    {left right : Expr α} (hl : Reprints left) (hr : Reprints right) :
    Reprints (.binary op left right) := by
  have hlevel : op.level = .chain chain := level_eq_of_joins hop
  have hchain : RereadsChain chain (Expr.binary op left right).tokens (.binary op left right)
      ((Expr.binary op left right).chained chain) (Expr.binary op left right).nesting := by
    have hjoin := (hl.chain chain).join hop (hr.operand chain.operands)
    rw [Expr.tokens, Expr.nesting, Expr.chained, if_pos hop, Expr.shift_eq_of_joins hop,
      op.before_eq_of_joins hop, op.after_eq_of_joins hop]
    exact hjoin
  refine of_own ?_ ?_
  · rw [Expr.level, hlevel]
    exact hchain.rereads
  · intro chain' hchain'
    cases hlevel.symm.trans hchain'
    exact hchain

theorem binary_of_compares {op : Operator} (hop : op.compares = true) {left right : Expr α}
    (hl : Reprints left) (hr : Reprints right) : Reprints (.binary op left right) := by
  have hlevel : op.level = .comparison := level_eq_of_compares hop
  have hcompare := (hl.operand (.chain .sum)).compare hop (hr.operand (.chain .sum))
  refine of_own ?_ ?_
  · rw [Expr.level, hlevel, Expr.tokens, Expr.nesting, Expr.shift_eq_of_compares hop,
      op.before_eq_of_compares hop, op.after_eq_of_compares hop, Nat.zero_add]
    exact hcompare
  · intro chain hchain
    cases hlevel.symm.trans hchain

end Reprints

mutual

-- An operand is read in its place as it is or in parentheses, so every case needs its operands both
-- at their own level and as expressions of their own.
theorem reprints (e : Expr α) (hcalls : e.isCallable = true) : Reprints e := by
  match e with
  | .number value => exact .of_own (.number value) (by rintro _ ⟨⟩)
  | .var name => exact .of_own (.var name) (by rintro _ ⟨⟩)
  | .neg operand =>
    have hoperand := reprints operand hcalls
    exact .of_own ((hoperand.operand .minus).sign .minus) (by rintro _ ⟨⟩)
  | .not operand =>
    have hoperand := reprints operand hcalls
    exact .of_own ((hoperand.operand .negation).sign .negation) (by rintro _ ⟨⟩)
  | .binary op left right =>
    rw [Expr.isCallable, Bool.and_eq_true] at hcalls
    have hleft := reprints left hcalls.1
    have hright := reprints right hcalls.2
    rcases op.joins_or_compares with ⟨chain, hop⟩ | hop
    · exact .binary_of_joins hop hleft hright
    · exact .binary_of_compares hop hleft hright
  | .call function arguments =>
    rw [Expr.isCallable, Bool.and_eq_true, decide_eq_true_eq] at hcalls
    have harguments := reprints_arguments arguments hcalls.2
    exact .of_own (.call function hcalls.1 fun e he => (harguments e he).whole)
      (by rintro _ ⟨⟩)
  | .choose condition whenTrue whenFalse =>
    rw [Expr.isCallable, Bool.and_eq_true, Bool.and_eq_true] at hcalls
    have hcondition := reprints condition hcalls.1.1
    have hwhenTrue := reprints whenTrue hcalls.1.2
    have hwhenFalse := reprints whenFalse hcalls.2
    exact .of_whole (by rintro ⟨⟩) (by rintro _ ⟨⟩)
      (hcondition.whole.choose hwhenTrue.whole hwhenFalse.whole)

theorem reprints_arguments (exprs : List (Expr α)) (hcalls : Expr.areCallable exprs = true) :
    ∀ e ∈ exprs, Reprints e := by
  match exprs with
  | [] => simp
  | expr :: exprs =>
    rw [Expr.areCallable, Bool.and_eq_true] at hcalls
    rw [List.forall_mem_cons]
    exact ⟨reprints expr hcalls.1, reprints_arguments exprs hcalls.2⟩

end

end Parser

/--
Reading what was printed gives back the expression, whatever the places of the tokens are, unless it
nests too deep.
-/
theorem parseExpression_tokens {e : Expr α} (hcalls : e.isCallable = true)
    {lexemes : List (Lexeme α)} (hlexemes : lexemes.map (·.token) = e.tokens) (stop : Nat) :
    (e.nesting < maxNesting → parseExpression stop lexemes = .ok e) ∧
    (maxNesting ≤ e.nesting → ∃ error : ParseError α,
      parseExpression stop lexemes = .error error ∧ error.cause = .tooDeep) := by
  have hwhole := (Parser.reprints e hcalls).whole
  have hparsed : Parser.CompletesIff (e.nesting < maxNesting) (Parser.Leaving e [])
      (Parser.expression stop maxNesting lexemes) :=
    hwhole.completes (by rw [hlexemes, List.append_nil]) rfl
  rw [parseExpression_eq_of_derives (hlexemes ▸ hwhole.derives)]
  constructor
  · intro hnesting
    obtain ⟨⟨expr, rest⟩, hok, rfl, hrest⟩ := hparsed.1 hnesting
    obtain rfl := List.map_eq_nil_iff.1 hrest
    rw [hok]
    rfl
  · intro hnesting
    obtain ⟨error, herror, hcause⟩ := hparsed.2 (Nat.not_lt.2 hnesting)
    rw [herror]
    exact ⟨error, rfl, hcause⟩

/--
A difference on the right of another one, a choice that is an operand, and one that is an argument.
-/
def mixed : Expr Float :=
  .binary .and
    (.not (.binary .lt (.var "a") (.binary .sub (.var "b") (.binary .sub (.var "c") (.number 2)))))
    (.binary .mul (.neg (.choose (.var "a") (.var "b") (.var "c")))
      (.call .max [.choose (.var "a") (.var "b") (.var "c"), .binary .or (.var "b") (.var "c")]))

theorem parseExpression_tokens_mixed :
    mixed.tokens =
      [.mark .not, .name "a", .operator .lt, .name "b", .operator .sub,
        .mark .leftParen, .name "c", .operator .sub, .number 2, .mark .rightParen,
      .operator .and, .operator .sub,
        .mark .leftParen, .mark .ifWord, .name "a", .mark .thenWord, .name "b", .mark .elseWord,
          .name "c", .mark .rightParen,
      .operator .mul, .name "max", .mark .leftParen,
        .mark .ifWord, .name "a", .mark .thenWord, .name "b", .mark .elseWord, .name "c",
        .mark .comma, .name "b", .operator .or, .name "c", .mark .rightParen] ∧
    parseExpression 0 (unplaced mixed.tokens) = .ok mixed ∧
    ∃ error : ParseError Float,
      parseExpression 0 (unplaced (Expr.neg^[maxNesting] mixed).tokens) = .error error ∧
        error.cause = .tooDeep := by
  refine ⟨rfl, ?_, ?_⟩
  · exact (parseExpression_tokens (by decide) (map_token_unplaced _) 0).1 (by decide)
  · have hcallable : (Expr.neg^[maxNesting] mixed).isCallable = true := by decide +kernel
    exact (parseExpression_tokens hcallable (map_token_unplaced _) 0).2 (by decide +kernel)

end Tariff.Formula
