import Tariff.Proofs.Formula.Soundness

/-!
This module contains the places of the parser's faults: each of them is a lexeme's or the end of the
text, however deep the expression is in which the fault is found.
-/

namespace Tariff.Formula

variable {α β γ : Type}

/--
A fault lies at a lexeme or at the end of the text, and it is no fault of a number literal.
-/
structure PlacedAt (stop : Nat) (lexemes : List (Lexeme α)) (error : ParseError α) : Prop where
  offset : error.offset = stop ∨ ∃ lexeme ∈ lexemes, error.offset = lexeme.start
  cause : ∀ text, error.cause ≠ .malformedNumber text

theorem PlacedAt.cons {stop : Nat} {lexemes : List (Lexeme α)} {error : ParseError α}
    (h : PlacedAt stop lexemes error) (lexeme : Lexeme α) :
    PlacedAt stop (lexeme :: lexemes) error where
  offset := h.offset.imp_right fun ⟨other, hother, hoffset⟩ =>
    ⟨other, List.mem_cons_of_mem _ hother, hoffset⟩
  cause := h.cause

namespace Parser

/--
A parse leaves lexemes at the end of the given ones, or has a fault that lies at one of them.
-/
structure StaysIn (stop : Nat) (all : List (Lexeme α)) (x : Parse α (Parsed α β)) : Prop where
  rest : Gives (·.2 <:+ all) x
  faults : FaultsIn (PlacedAt stop all) x

variable {stop : Nat} {all lexemes : List (Lexeme α)}

namespace StaysIn

theorem ok {b : β} (h : lexemes <:+ all) : StaysIn stop all (.ok (b, lexemes)) where
  rest := .ok h
  faults := .ok _

theorem error {fault : ParseError α} (h : PlacedAt stop all fault) :
    StaysIn stop all (.error fault : Parse α (Parsed α β)) where
  rest := .error fault
  faults := .error h

theorem bind_faults {x : Parse α (Parsed α β)} {f : Parsed α β → Parse α γ}
    (hx : StaysIn stop all x)
    (hf : ∀ b rest, rest <:+ all → FaultsIn (PlacedAt stop all) (f (b, rest))) :
    FaultsIn (PlacedAt stop all) (x >>= f) :=
  hx.faults.bind fun parsed hparsed => hf parsed.1 parsed.2 (hx.rest parsed hparsed)

theorem bind {x : Parse α (Parsed α β)} {f : Parsed α β → Parse α (Parsed α γ)}
    (hx : StaysIn stop all x) (hf : ∀ b rest, rest <:+ all → StaysIn stop all (f (b, rest))) :
    StaysIn stop all (x >>= f) where
  rest := hx.rest.bind fun parsed hrest => (hf parsed.1 parsed.2 hrest).rest
  faults := hx.bind_faults fun b rest hrest => (hf b rest hrest).faults

end StaysIn

theorem suffix_of_cons {lexeme : Lexeme α} (h : lexeme :: lexemes <:+ all) : lexemes <:+ all :=
  (List.suffix_cons lexeme lexemes).trans h

theorem refuse_staysIn {cause : Option (Token α) → ParseCause α} (h : lexemes <:+ all)
    (hcause : ∀ found text, cause found ≠ .malformedNumber text) :
    StaysIn stop all (refuse stop lexemes cause : Parse α (Parsed α β)) := by
  refine .error ⟨?_, hcause _⟩
  cases lexemes with
  | nil => exact .inl rfl
  | cons lexeme rest => exact .inr ⟨lexeme, h.subset List.mem_cons_self, rfl⟩

theorem tooDeep_staysIn (h : lexemes <:+ all) :
    StaysIn stop all (tooDeep stop lexemes : Parse α (Parsed α β)) :=
  refuse_staysIn h nofun

theorem expect_staysIn (mark : Mark) (h : lexemes <:+ all) :
    StaysIn stop all (expect stop mark lexemes) := by
  unfold expect
  split
  next =>
    split
    next => exact .ok (suffix_of_cons h)
    next => exact refuse_staysIn h nofun
  next => exact refuse_staysIn h nofun

theorem expectName_staysIn (h : lexemes <:+ all) : StaysIn stop all (expectName stop lexemes) := by
  unfold expectName
  split
  next => exact .ok (suffix_of_cons h)
  next => exact refuse_staysIn h nofun

theorem operator?_suffix {wanted : Operator → Bool} {rest : List (Lexeme α)} {op : Operator}
    (h : lexemes <:+ all) (hop : operator? wanted lexemes = some (op, rest)) : rest <:+ all := by
  obtain ⟨_, lexeme, rfl, _⟩ := exists_lexeme_of_operator? hop
  exact suffix_of_cons h

theorem moreItems_staysIn {item : List (Lexeme α) → Parse α (Parsed α β)}
    (hitem : ∀ lexemes, lexemes <:+ all → StaysIn stop all (item lexemes)) (bound : Nat)
    (h : lexemes <:+ all) : StaysIn stop all (moreItems item bound lexemes) := by
  induction bound generalizing lexemes with
  | zero => exact .ok h
  | succ bound ih =>
    unfold moreItems
    split
    next hbound =>
      cases hbound
      refine (hitem _ (suffix_of_cons h)).bind fun first lexemes₁ h₁ => ?_
      refine (ih h₁).bind fun others rest hrest => ?_
      exact .ok hrest
    next => exact .ok h

theorem items_staysIn {item : List (Lexeme α) → Parse α (Parsed α β)}
    (hitem : ∀ lexemes, lexemes <:+ all → StaysIn stop all (item lexemes))
    (h : lexemes <:+ all) : StaysIn stop all (items item lexemes) := by
  unfold items
  split
  next => exact .ok h
  next =>
    refine (hitem _ h).bind fun first lexemes₁ h₁ => ?_
    refine (moreItems_staysIn hitem _ h₁).bind fun others rest hrest => ?_
    exact .ok hrest

theorem signed_staysIn {depth : Nat} {which tighter : Level} {sign : Token α}
    {apply : Expr α → Expr α} (hsign : which.TakesSign sign apply tighter) (h : lexemes <:+ all)
    (hoperand : ∀ {depth' : Nat} {rest : List (Lexeme α)}, depth = depth' + 1 → rest <:+ all →
      StaysIn stop all (level stop which depth' rest))
    (htighter : StaysIn stop all (level stop tighter depth lexemes)) :
    StaysIn stop all (level stop which depth lexemes) := by
  rcases exists_lexeme_or_ne sign lexemes with ⟨s, t, rest, rfl⟩ | hplain
  · rw [level_of_sign hsign]
    cases depth with
    | zero => exact tooDeep_staysIn (suffix_of_cons h)
    | succ depth =>
      refine (hoperand rfl (suffix_of_cons h)).bind fun operand rest' hrest' => ?_
      exact .ok hrest'
  · rw [level_of_no_sign hsign hplain]
    exact htighter

mutual

theorem expression_staysIn {depth : Nat} {lexemes : List (Lexeme α)} (h : lexemes <:+ all) :
    StaysIn stop all (expression stop depth lexemes) := by
  cases depth with
  | zero =>
    rw [expression]
    exact tooDeep_staysIn h
  | succ depth =>
    rw [expression]
    exact level_staysIn h
termination_by 10 * depth
decreasing_by
  simp only [Level.rank]
  omega

theorem level_staysIn {which : Level} {depth : Nat} {lexemes : List (Lexeme α)}
    (h : lexemes <:+ all) : StaysIn stop all (level stop which depth lexemes) := by
  cases which with
  | chain chain =>
    rw [level]
    refine (level_staysIn h).bind fun left lexemes₁ h₁ => ?_
    exact joined_staysIn h₁
  | negation =>
    exact signed_staysIn .negation h (fun hdepth hrest => level_staysIn hrest) (level_staysIn h)
  | comparison =>
    rw [level]
    refine (level_staysIn h).bind fun left lexemes₁ h₁ => ?_
    dsimp only
    split
    next => exact .ok h₁
    next hop =>
      refine (level_staysIn (operator?_suffix h₁ hop)).bind fun right rest hrest => ?_
      exact .ok hrest
  | minus =>
    exact signed_staysIn .minus h (fun hdepth hrest => level_staysIn hrest) (level_staysIn h)
  | operand =>
    rw [level]
    exact operand_staysIn h
termination_by 10 * depth + 1 + which.rank
decreasing_by
  · have := Chain.rank_operands_lt chain
    omega
  all_goals
    simp only [Level.rank]
    omega

theorem joined_staysIn {chain : Chain} {depth : Nat} {left : Expr α} {lexemes : List (Lexeme α)}
    (h : lexemes <:+ all) : StaysIn stop all (joined stop chain depth left lexemes) := by
  rw [joined]
  split
  next => exact .ok h
  next hop =>
    have hafter := operator?_suffix h hop
    split
    next => exact tooDeep_staysIn hafter
    next depth =>
      refine (level_staysIn hafter).bind fun right lexemes₁ h₁ => ?_
      exact joined_staysIn h₁
termination_by 10 * depth
decreasing_by
  all_goals have := Level.rank_le chain.operands
  all_goals omega

theorem operand_staysIn {depth : Nat} {lexemes : List (Lexeme α)} (h : lexemes <:+ all) :
    StaysIn stop all (operand stop depth lexemes) := by
  unfold operand
  split
  next => exact .ok (suffix_of_cons h)
  next =>
    refine (expression_staysIn (suffix_of_cons h)).bind fun inner lexemes₁ h₁ => ?_
    refine (expect_staysIn .rightParen h₁).bind fun _ rest hrest => ?_
    exact .ok hrest
  next =>
    refine (expression_staysIn (suffix_of_cons h)).bind fun condition lexemes₁ h₁ => ?_
    refine (expect_staysIn .thenWord h₁).bind fun _ lexemes₂ h₂ => ?_
    refine (expression_staysIn h₂).bind fun whenTrue lexemes₃ h₃ => ?_
    refine (expect_staysIn .elseWord h₃).bind fun _ lexemes₄ h₄ => ?_
    refine (expression_staysIn h₄).bind fun whenFalse rest hrest => ?_
    exact .ok hrest
  next name start stop' lexemes =>
    -- Both faults of a call lie at its name.
    have hname {fault : ParseError α} (hoffset : fault.offset = start)
        (hcause : ∀ text, fault.cause ≠ .malformedNumber text) : PlacedAt stop all fault :=
      ⟨.inr ⟨_, h.subset List.mem_cons_self, hoffset⟩, hcause⟩
    have hafter := suffix_of_cons h
    split
    next lexemes =>
      split
      next => exact .error (hname rfl nofun)
      next function hfunction =>
        refine (items_staysIn (fun _ => expression_staysIn) (suffix_of_cons hafter)).bind
          fun arguments lexemes₁ h₁ => ?_
        refine (expect_staysIn .rightParen h₁).bind fun _ rest hrest => ?_
        dsimp only
        split
        next => exact .error (hname rfl nofun)
        next => exact .ok hrest
    next => exact .ok hafter
  next => exact refuse_staysIn h nofun
termination_by 10 * depth + 1

end

end Parser

theorem parseExpression_placed (stop : Nat) (lexemes : List (Lexeme α)) :
    FaultsIn (PlacedAt stop lexemes) (parseExpression stop lexemes) := by
  unfold parseExpression
  split
  next lexeme hlexeme =>
    exact .error ⟨.inr ⟨lexeme, List.mem_of_find?_eq_some hlexeme, rfl⟩, nofun⟩
  next =>
    split
    next => exact .error ⟨.inl rfl, nofun⟩
    next =>
      refine (Parser.expression_staysIn (List.suffix_refl _)).bind_faults fun expr rest hrest => ?_
      cases rest with
      | nil => exact .ok expr
      | cons lexeme rest =>
        exact .error ⟨.inr ⟨lexeme, hrest.subset List.mem_cons_self, rfl⟩, nofun⟩

theorem parseLookup_placed (source : List Char) (lexemes : List (Lexeme α)) :
    FaultsIn (PlacedAt (Text.byteLength source) lexemes) (parseLookup source lexemes) := by
  unfold parseLookup
  refine (Parser.expect_staysIn _ (List.suffix_refl _)).bind_faults fun _ lexemes₁ h₁ => ?_
  refine (Parser.expectName_staysIn h₁).bind_faults fun key lexemes₂ h₂ => ?_
  refine (Parser.expect_staysIn _ h₂).bind_faults fun _ lexemes₃ h₃ => ?_
  refine (Parser.expect_staysIn _ h₃).bind_faults fun opening lexemes₄ h₄ => ?_
  dsimp only
  split
  next close _ hlast =>
    -- The end of the body is the place of a lexeme, too.
    have hclose := h₄.subset (List.mem_of_getLast? hlast)
    refine FaultsIn.bind ?_ fun expr _ => .ok _
    refine (parseExpression_placed _ _).imp fun error herror => ⟨.inr ?_, herror.cause⟩
    rcases herror.offset with hoffset | ⟨lexeme, hlexeme, hoffset⟩
    · exact ⟨_, hclose, hoffset⟩
    · exact ⟨lexeme, h₄.subset (List.dropLast_subset _ hlexeme), hoffset⟩
  next => exact .error ⟨.inl rfl, nofun⟩

end Tariff.Formula
