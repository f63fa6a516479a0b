import Tariff.Proofs.Formula.Completeness

/-!
This module contains the proof that the parser goes by tokens alone. The places of lexemes show in
the places of faults and nowhere else.
-/

namespace Tariff.Formula

variable {α β γ : Type}

namespace Parser

/--
Two parses give related results and leave the same tokens, or both fail for the same cause.
-/
inductive Agree (r : β → β → Prop) : Parse α (Parsed α β) → Parse α (Parsed α β) → Prop where
  | ok {b b' rest rest'} (hb : r b b') (hrest : rest.map (·.token) = rest'.map (·.token)) :
    Agree r (.ok (b, rest)) (.ok (b', rest'))
  | error {error error'} (hcause : error.cause = error'.cause) :
    Agree r (.error error) (.error error')

theorem Agree.bind {r : β → β → Prop} {r' : γ → γ → Prop} {x y : Parse α (Parsed α β)}
    {f g : Parsed α β → Parse α (Parsed α γ)} (hxy : Agree r x y)
    (hfg : ∀ b b' rest rest', r b b' → rest.map (·.token) = rest'.map (·.token) →
      Agree r' (f (b, rest)) (g (b', rest'))) : Agree r' (x >>= f) (y >>= g) := by
  cases hxy with
  | ok hb hrest => exact hfg _ _ _ _ hb hrest
  | error hcause => exact .error hcause

variable {stop stop' : Nat} {lexemes lexemes' : List (Lexeme α)}

theorem refuse_agree (cause : Option (Token α) → ParseCause α) (r : β → β → Prop)
    (h : lexemes.map (·.token) = lexemes'.map (·.token)) :
    Agree r (refuse stop lexemes cause) (refuse stop' lexemes' cause) := by
  apply Agree.error
  dsimp only
  rw [← List.head?_map, ← List.head?_map, h]

theorem expect_agree (mark : Mark) (h : lexemes.map (·.token) = lexemes'.map (·.token)) :
    Agree (fun _ _ => True) (expect stop mark lexemes) (expect stop' mark lexemes') := by
  cases lexemes with
  | nil =>
    obtain rfl := List.map_eq_nil_iff.1 h.symm
    exact refuse_agree _ _ rfl
  | cons lexeme rest =>
    obtain ⟨token, s, t⟩ := lexeme
    obtain ⟨s', t', rest', rfl, hrest⟩ := exists_lexeme_of_map_token h.symm
    unfold expect
    cases token with
    | mark found =>
      dsimp only
      split
      next => exact .ok trivial hrest.symm
      next => exact refuse_agree _ _ h
    | _ => exact refuse_agree _ _ h

theorem operator?_agree (wanted : Operator → Bool)
    (h : lexemes.map (·.token) = lexemes'.map (·.token)) :
    (operator? wanted lexemes = none ∧ operator? wanted lexemes' = none) ∨
      ∃ op rest rest', operator? wanted lexemes = some (op, rest) ∧
        operator? wanted lexemes' = some (op, rest') ∧
        rest.map (·.token) = rest'.map (·.token) := by
  cases lexemes with
  | nil =>
    obtain rfl := List.map_eq_nil_iff.1 h.symm
    exact .inl ⟨rfl, rfl⟩
  | cons lexeme rest =>
    obtain ⟨token, s, t⟩ := lexeme
    obtain ⟨s', t', rest', rfl, hrest⟩ := exists_lexeme_of_map_token h.symm
    cases token with
    | operator op =>
      simp only [operator?]
      split
      next => exact .inr ⟨op, rest, rest', rfl, rfl, hrest.symm⟩
      next => exact .inl ⟨rfl, rfl⟩
    | _ => exact .inl ⟨rfl, rfl⟩

theorem moreItems_agree {item item' : List (Lexeme α) → Parse α (Parsed α β)}
    (hitem : ∀ {lexemes lexemes' : List (Lexeme α)},
      lexemes.map (·.token) = lexemes'.map (·.token) → Agree Eq (item lexemes) (item' lexemes'))
    (bound : Nat) (h : lexemes.map (·.token) = lexemes'.map (·.token)) :
    Agree Eq (moreItems item bound lexemes) (moreItems item' bound lexemes') := by
  induction bound generalizing lexemes lexemes' with
  | zero => exact .ok rfl h
  | succ bound ih =>
    cases lexemes with
    | nil =>
      obtain rfl := List.map_eq_nil_iff.1 h.symm
      exact .ok rfl rfl
    | cons lexeme rest =>
      obtain ⟨token, s, t⟩ := lexeme
      obtain ⟨s', t', rest', rfl, hrest⟩ := exists_lexeme_of_map_token h.symm
      unfold moreItems
      cases token with
      | mark mark =>
        cases mark with
        | comma =>
          refine (hitem hrest.symm).bind ?_
          rintro first _ lexemes₁ lexemes₁' rfl h₁
          refine (ih h₁).bind ?_
          rintro others _ lexemes₂ lexemes₂' rfl h₂
          exact .ok rfl h₂
        | _ => exact .ok rfl h
      | _ => exact .ok rfl h

theorem items_agree {item item' : List (Lexeme α) → Parse α (Parsed α β)}
    (hitem : ∀ {lexemes lexemes' : List (Lexeme α)},
      lexemes.map (·.token) = lexemes'.map (·.token) → Agree Eq (item lexemes) (item' lexemes'))
    (h : lexemes.map (·.token) = lexemes'.map (·.token)) :
    Agree Eq (items item lexemes) (items item' lexemes') := by
  have hmore : Agree Eq
      (item lexemes >>= fun first => moreItems item first.2.length first.2 >>= fun others =>
        pure (first.1 :: others.1, others.2))
      (item' lexemes' >>= fun first => moreItems item' first.2.length first.2 >>= fun others =>
        pure (first.1 :: others.1, others.2)) := by
    refine (hitem h).bind ?_
    rintro first _ lexemes₁ lexemes₁' rfl h₁
    have hlength : lexemes₁.length = lexemes₁'.length := by simpa using congrArg List.length h₁
    dsimp only
    rw [hlength]
    refine (moreItems_agree hitem _ h₁).bind ?_
    rintro others _ lexemes₂ lexemes₂' rfl h₂
    exact .ok rfl h₂
  unfold items
  cases lexemes with
  | nil =>
    obtain rfl := List.map_eq_nil_iff.1 h.symm
    exact hmore
  | cons lexeme rest =>
    obtain ⟨token, s, t⟩ := lexeme
    obtain ⟨s', t', rest', rfl, hrest⟩ := exists_lexeme_of_map_token h.symm
    cases token with
    | mark mark =>
      cases mark with
      | rightParen => exact .ok rfl h
      | _ => exact hmore
    | _ => exact hmore

theorem signed_agree {stop stop' depth : Nat} {which tighter : Level} {sign : Token α}
    {apply : Expr α → Expr α} {lexemes lexemes' : List (Lexeme α)}
    (hsign : which.TakesSign sign apply tighter)
    (h : lexemes.map (·.token) = lexemes'.map (·.token))
    (hoperand : ∀ {depth' : Nat} {rest rest' : List (Lexeme α)}, depth = depth' + 1 →
      rest.map (·.token) = rest'.map (·.token) →
      Agree Eq (level stop which depth' rest) (level stop' which depth' rest'))
    (htighter : Agree Eq (level stop tighter depth lexemes) (level stop' tighter depth lexemes')) :
    Agree Eq (level stop which depth lexemes) (level stop' which depth lexemes') := by
  rcases exists_lexeme_or_ne sign lexemes with ⟨s, t, rest, rfl⟩ | hplain
  · obtain ⟨s', t', rest', rfl, hrest'⟩ := exists_lexeme_of_map_token h.symm
    rw [level_of_sign hsign, level_of_sign hsign]
    cases depth with
    | zero => exact refuse_agree _ _ hrest'.symm
    | succ depth =>
      refine (hoperand rfl hrest'.symm).bind ?_
      rintro operand _ lexemes₁ lexemes₁' rfl h₁
      exact .ok rfl h₁
  · rw [level_of_no_sign hsign hplain, level_of_no_sign hsign (h ▸ hplain)]
    exact htighter

mutual

theorem expression_agree {stop stop' depth : Nat} {lexemes lexemes' : List (Lexeme α)}
    (h : lexemes.map (·.token) = lexemes'.map (·.token)) :
    Agree Eq (expression stop depth lexemes) (expression stop' depth lexemes') := by
  cases depth with
  | zero =>
    rw [expression, expression]
    exact refuse_agree _ _ h
  | succ depth =>
    rw [expression, expression]
    exact level_agree h
termination_by 10 * depth
decreasing_by
  simp only [Level.rank]
  omega

theorem level_agree {stop stop' depth : Nat} {which : Level} {lexemes lexemes' : List (Lexeme α)}
    (h : lexemes.map (·.token) = lexemes'.map (·.token)) :
    Agree Eq (level stop which depth lexemes) (level stop' which depth lexemes') := by
  cases which with
  | chain chain =>
    unfold level
    refine (level_agree h).bind ?_
    rintro left _ lexemes₁ lexemes₁' rfl h₁
    exact joined_agree left h₁
  | negation =>
    exact signed_agree .negation h (fun hdepth hrest => level_agree hrest) (level_agree h)
  | comparison =>
    unfold level
    refine (level_agree h).bind ?_
    rintro left _ lexemes₁ lexemes₁' rfl h₁
    rcases operator?_agree Operator.compares h₁ with
      ⟨hnone, hnone'⟩ | ⟨op, lexemes₂, lexemes₂', hsome, hsome', h₂⟩
    · simp only [hnone, hnone']
      exact .ok rfl h₁
    · simp only [hsome, hsome']
      refine (level_agree h₂).bind ?_
      rintro right _ rest rest' rfl hrest
      exact .ok rfl hrest
  | minus =>
    exact signed_agree .minus h (fun hdepth hrest => level_agree hrest) (level_agree h)
  | operand =>
    unfold level
    exact operand_agree h
termination_by 10 * depth + 1 + which.rank
decreasing_by
  · have := Chain.rank_operands_lt chain
    omega
  all_goals
    simp only [Level.rank]
    omega

theorem joined_agree {stop stop' depth : Nat} {chain : Chain} {lexemes lexemes' : List (Lexeme α)}
    (left : Expr α) (h : lexemes.map (·.token) = lexemes'.map (·.token)) :
    Agree Eq (joined stop chain depth left lexemes) (joined stop' chain depth left lexemes') := by
  unfold joined
  rcases operator?_agree chain.joins h with
    ⟨hnone, hnone'⟩ | ⟨op, lexemes₁, lexemes₁', hsome, hsome', h₁⟩
  · simp only [hnone, hnone']
    exact .ok rfl h
  · simp only [hsome, hsome']
    cases depth with
    | zero => exact refuse_agree _ _ h₁
    | succ depth =>
      refine (level_agree h₁).bind ?_
      rintro right _ lexemes₂ lexemes₂' rfl h₂
      exact joined_agree _ h₂
termination_by 10 * depth
decreasing_by
  all_goals have := Level.rank_le chain.operands
  all_goals omega

theorem operand_agree {stop stop' depth : Nat} {lexemes lexemes' : List (Lexeme α)}
    (h : lexemes.map (·.token) = lexemes'.map (·.token)) :
    Agree Eq (operand stop depth lexemes) (operand stop' depth lexemes') := by
  cases lexemes with
  | nil =>
    obtain rfl := List.map_eq_nil_iff.1 h.symm
    unfold operand
    exact refuse_agree _ _ rfl
  | cons lexeme rest =>
    obtain ⟨token, s, t⟩ := lexeme
    obtain ⟨s', t', rest', rfl, hrest⟩ := exists_lexeme_of_map_token h.symm
    unfold operand
    cases token with
    | number value => exact .ok rfl hrest.symm
    | name name =>
      cases rest with
      | nil =>
        obtain rfl := List.map_eq_nil_iff.1 hrest
        exact .ok rfl rfl
      | cons lexeme rest =>
        obtain ⟨token, s₁, t₁⟩ := lexeme
        obtain ⟨s₁', t₁', rest', rfl, hafter⟩ := exists_lexeme_of_map_token hrest
        cases token with
        | mark mark =>
          cases mark with
          | leftParen =>
            dsimp only
            split
            next => exact .error rfl
            next =>
              refine (items_agree expression_agree hafter.symm).bind ?_
              rintro arguments _ lexemes₁ lexemes₁' rfl h₁
              refine (expect_agree _ h₁).bind ?_
              rintro _ _ lexemes₂ lexemes₂' _ h₂
              dsimp only
              split
              next => exact .error rfl
              next => exact .ok rfl h₂
          | _ => exact .ok rfl hrest.symm
        | _ => exact .ok rfl hrest.symm
    | operator op => exact refuse_agree _ _ h
    | mark mark =>
      cases mark with
      | leftParen =>
        refine (expression_agree hrest.symm).bind ?_
        rintro inner _ lexemes₁ lexemes₁' rfl h₁
        refine (expect_agree _ h₁).bind ?_
        rintro _ _ rest₂ rest₂' _ h₂
        exact .ok rfl h₂
      | ifWord =>
        refine (expression_agree hrest.symm).bind ?_
        rintro condition _ lexemes₁ lexemes₁' rfl h₁
        refine (expect_agree _ h₁).bind ?_
        rintro _ _ lexemes₂ lexemes₂' _ h₂
        refine (expression_agree h₂).bind ?_
        rintro whenTrue _ lexemes₃ lexemes₃' rfl h₃
        refine (expect_agree _ h₃).bind ?_
        rintro _ _ lexemes₄ lexemes₄' _ h₄
        refine (expression_agree h₄).bind ?_
        rintro whenFalse _ lexemes₅ lexemes₅' rfl h₅
        exact .ok rfl h₅
      | _ => exact refuse_agree _ _ h
termination_by 10 * depth + 1

end

end Parser

theorem parseExpression_eq_ok_of_tokens {stop stop' : Nat} {lexemes lexemes' : List (Lexeme α)}
    (h : lexemes.map (·.token) = lexemes'.map (·.token)) {expr : Expr α}
    (hexpr : parseExpression stop lexemes = .ok expr) :
    parseExpression stop' lexemes' = .ok expr := by
  have hderives := derives_of_parseExpression hexpr
  rw [parseExpression_eq_of_derives hderives] at hexpr
  rw [parseExpression_eq_of_derives (h ▸ hderives)]
  have hagree : Parser.Agree Eq (Parser.expression stop maxNesting lexemes)
      (Parser.expression stop' maxNesting lexemes') := Parser.expression_agree h
  generalize Parser.expression stop maxNesting lexemes = x at *
  generalize Parser.expression stop' maxNesting lexemes' = y at *
  cases hagree with
  | error => cases hexpr
  | @ok expr _ rest rest' hb hrest =>
    subst hb
    cases rest with
    | nil =>
      obtain rfl := List.map_eq_nil_iff.1 hrest.symm
      exact hexpr
    | cons => cases hexpr

end Tariff.Formula
