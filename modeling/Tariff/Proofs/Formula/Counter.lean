import Tariff.Proofs.Formula.Completeness
import Tariff.Proofs.Formula.Cursor

/-!
This module contains the proof that the parser with a counter restores it. The counter always tells
how much nesting is left, so the parser gives the same results as the one that is told the nesting.
-/

namespace Tariff.Formula

variable {α β γ : Type}

/--
A calculation from a cursor ends, and its outcome is a parse's: they have the same fault, or they
have the same result and leave the same lexemes. In that case the result and the cursor meet a
condition.
-/
inductive Follows (r : β → Cursor α → Prop) :
    Checked (ParseError α) (β × Cursor α) → Parser.Parse α (Parser.Parsed α β) → Prop where
  | ok {b : β} {after : Cursor α} (h : r b after) :
    Follows r (.safe (.ok (b, after))) (.ok (b, after.rest))
  | error (fault : ParseError α) : Follows r (.safe (.error fault)) (.error fault)

theorem Follows.bind {r : β → Cursor α → Prop} {r' : γ → Cursor α → Prop} {x : Counted α β}
    {cursor : Cursor α} {y : Parser.Parse α (Parser.Parsed α β)} {f : β → Counted α γ}
    {g : Parser.Parsed α β → Parser.Parse α (Parser.Parsed α γ)} (hx : Follows r (x cursor) y)
    (hf : ∀ b after, x cursor = .safe (.ok (b, after)) → r b after →
      Follows r' (f b after) (g (b, after.rest))) :
    Follows r' ((x >>= f) cursor) (y >>= g) := by
  have hbind : (x >>= f) cursor = x cursor >>= fun result => f result.1 result.2 := rfl
  rw [hbind]
  generalize x cursor = outcome at hx hf
  cases hx with
  | ok h => exact hf _ _ rfl h
  | error fault => exact .error fault

theorem Follows.imp {r r' : β → Cursor α → Prop}
    {x : Checked (ParseError α) (β × Cursor α)} {y : Parser.Parse α (Parser.Parsed α β)}
    (h : Follows r x y) (himp : ∀ b after, r b after → r' b after) : Follows r' x y := by
  cases h with
  | ok h => exact .ok (himp _ _ h)
  | error fault => exact .error fault

theorem Follows.exists_of_ok {r : β → Cursor α → Prop}
    {x : Checked (ParseError α) (β × Cursor α)} {b : β} {rest : List (Lexeme α)}
    (h : Follows r x (.ok (b, rest))) :
    ∃ after, x = .safe (.ok (b, after)) ∧ after.rest = rest ∧ r b after := by
  cases h with
  | ok h => exact ⟨_, rfl, rfl, h⟩

namespace Counted

variable {cursor : Cursor α} {stop : Nat}

theorem get_bind (f : Cursor α → Counted α β) : (get >>= f) cursor = f cursor cursor :=
  rfl

theorem peek_bind (f : Option (Token α) → Counted α β) :
    (peek >>= f) cursor = f (cursor.rest.head?.map (·.token)) cursor := by
  rw [← Cursor.token?_eq]
  rfl

theorem advance_bind (f : Unit → Counted α β) : (advance >>= f) cursor = f () cursor.advance :=
  rfl

theorem enter_bind (hlt : cursor.depth < maxNesting) (f : Unit → Counted α β) :
    (enter 1 >>= f) cursor = f () (cursor.enter 1) := by
  have henter : enter 1 cursor = .safe (.ok ((), cursor.enter 1)) := if_neg (Nat.not_lt.2 hlt)
  have hbind : (enter 1 >>= f) cursor = enter 1 cursor >>= fun result => f result.1 result.2 := rfl
  rw [hbind, henter]
  rfl

theorem refuse_follows (cause : Option (Token α) → ParseCause α) (r : β → Cursor α → Prop)
    (hstop : cursor.stop = stop) :
    Follows r (refuse cause cursor) (Parser.refuse stop cursor.rest cause) := by
  unfold refuse Parser.refuse
  rw [Cursor.offset_eq, Cursor.token?_eq, hstop]
  exact .error _

theorem enter_follows (h : cursor.Allows stop 0) (f : Unit → Counted α β)
    (r : β → Cursor α → Prop) :
    Follows r ((enter 1 >>= f) cursor) (Parser.tooDeep stop cursor.rest) := by
  have henter : enter 1 cursor = refuse (fun _ => .tooDeep) cursor :=
    if_pos (Nat.lt_succ_of_le (Nat.le_of_eq h.depth.symm))
  have hbind : (enter 1 >>= f) cursor = enter 1 cursor >>= fun result => f result.1 result.2 := rfl
  rw [hbind, henter]
  unfold refuse Parser.tooDeep Parser.refuse
  rw [Cursor.offset_eq, h.stop]
  exact .error _

theorem expect_follows (mark : Mark) (hstop : cursor.stop = stop) :
    Follows (fun _ after => Unwinds 0 cursor after) (expect mark cursor)
      (Parser.expect stop mark cursor.rest) := by
  have hrefuse := refuse_follows (.expected mark)
    (fun (_ : Lexeme α) after => Unwinds 0 cursor after) hstop
  unfold expect
  rw [Cursor.getElem?_position]
  cases hrest : cursor.rest with
  | nil =>
    rw [hrest] at hrefuse
    exact hrefuse
  | cons lexeme lexemes =>
    obtain ⟨token, start, after⟩ := lexeme
    rw [hrest] at hrefuse
    cases token with
    | mark found =>
      unfold Parser.expect
      dsimp only [List.head?_cons]
      split
      next =>
        rw [← Cursor.rest_advance hrest]
        exact .ok (.advance cursor)
      next => exact hrefuse
    | _ => exact hrefuse

theorem operator?_bind (wanted : Operator → Bool) (f : Option Operator → Counted α β) :
    (operator? wanted >>= f) cursor =
      f ((Parser.operator? wanted cursor.rest).map (·.1)) cursor := by
  have hbind : (operator? wanted >>= f) cursor =
      operator? wanted cursor >>= fun result => f result.1 result.2 := rfl
  rw [hbind, operator?, peek_bind]
  cases cursor.rest with
  | nil => rfl
  | cons lexeme lexemes =>
    obtain ⟨token, start, after⟩ := lexeme
    cases token with
    | operator op =>
      dsimp only [List.head?_cons, Option.map_some, Parser.operator?]
      cases wanted op <;> rfl
    | _ => rfl

def ParsedBetween (height : Nat) (cursor : Cursor α) (expr : Expr α) (after : Cursor α) : Prop :=
  ∃ first last, Unwinds 0 cursor first ∧ expression height first = .safe (.ok (expr, last)) ∧
    Unwinds 0 last after

/--
Expressions are all parsed between two places, with the nesting at both of them.
-/
structure AllBetween (height : Nat) (cursor : Cursor α) (exprs : List (Expr α))
    (after : Cursor α) : Prop where
  unwinds : Unwinds 0 cursor after
  parsed : ∀ expr ∈ exprs, ParsedBetween height cursor expr after

/--
The counter is restored, and the parts of a choice and the arguments of a call are all parsed with
the nesting where the choice or the call begins.
-/
structure NestsAlike (height : Nat) (cursor : Cursor α) (expr : Expr α) (after : Cursor α) : Prop
    extends Restores cursor after where
  choice : cursor.token? = some (.mark .ifWord) → ∃ condition whenTrue whenFalse,
    expr = .choose condition whenTrue whenFalse ∧
      AllBetween height cursor [condition, whenTrue, whenFalse] after
  call : ∀ name, cursor.token? = some (.name name) →
    cursor.advance.token? = some (.mark .leftParen) →
    ∃ function arguments, expr = .call function arguments ∧
      AllBetween height cursor arguments after

section

variable {height : Nat}

theorem ParsedBetween.widen {cursor cursor' after after' : Cursor α} {expr : Expr α}
    (h : ParsedBetween height cursor expr after) (hcursor : Unwinds 0 cursor' cursor)
    (hafter : Unwinds 0 after after') : ParsedBetween height cursor' expr after' := by
  obtain ⟨first, last, hfirst, hexpr, hlast⟩ := h
  exact ⟨first, last, hcursor.trans hfirst, hexpr, hlast.trans hafter⟩

theorem NestsAlike.of_token? {cursor after : Cursor α} (h : Restores cursor after) {t : Token α}
    (ht : cursor.token? = some t) (hchoice : t ≠ .mark .ifWord) (hname : ∀ name, t ≠ .name name)
    (expr : Expr α) : NestsAlike height cursor expr after where
  toRestores := h
  choice := by
    intro hif
    exact absurd (Option.some.inj (ht.symm.trans hif)) hchoice
  call := by
    intro name hcall
    exact absurd (Option.some.inj (ht.symm.trans hcall)) (hname name)

namespace AllBetween

variable {cursor first last after : Cursor α} {expr : Expr α} {exprs : List (Expr α)}

theorem nil (h : Unwinds 0 cursor after) : AllBetween height cursor [] after where
  unwinds := h
  parsed := by simp

theorem cons (hfirst : Unwinds 0 cursor first)
    (hexpr : expression height first = .safe (.ok (expr, last))) (hlast : Restores first last)
    (h : AllBetween height last exprs after) : AllBetween height cursor (expr :: exprs) after where
  unwinds := (hfirst.trans hlast.toUnwinds).trans h.unwinds
  parsed := by
    rw [List.forall_mem_cons]
    refine ⟨⟨first, last, hfirst, hexpr, h.unwinds⟩, fun other hother => ?_⟩
    exact (h.parsed other hother).widen (hfirst.trans hlast.toUnwinds) (.refl after)

theorem widen {cursor' after' : Cursor α} (h : AllBetween height cursor exprs after)
    (hcursor : Unwinds 0 cursor' cursor) (hafter : Unwinds 0 after after') :
    AllBetween height cursor' exprs after' where
  unwinds := hcursor.trans (h.unwinds.trans hafter)
  parsed := fun expr hexpr => (h.parsed expr hexpr).widen hcursor hafter

end AllBetween

def ExpressionFollows (α : Type) (stop depth height : Nat) : Prop :=
  ∀ {cursor : Cursor α}, cursor.Allows stop depth →
    Follows (fun _ after => Restores cursor after) (expression height cursor)
      (Parser.expression stop depth cursor.rest)

theorem nil_follows (height : Nat) (cursor : Cursor α) :
    Follows (AllBetween height cursor) (.safe (.ok ([], cursor))) (.ok ([], cursor.rest)) :=
  .ok (.nil (.refl cursor))

variable {depth : Nat}

theorem moreItems_follows (hexpression : ExpressionFollows α stop depth height)
    (h : cursor.Allows stop depth) {bound : Nat} (hbound : cursor.rest.length ≤ bound) :
    Follows (AllBetween height cursor) (moreItems (expression height) (bound + 1) cursor)
      (Parser.moreItems (fun lexemes => Parser.expression stop depth lexemes) bound
        cursor.rest) := by
  -- The bound is never what ends the items: each of them uses up a lexeme.
  induction bound generalizing cursor with
  | zero =>
    have hnone := nil_follows height cursor
    have hrest := List.eq_nil_of_length_eq_zero (Nat.le_zero.1 hbound)
    rw [hrest] at hnone
    rw [moreItems, peek_bind, hrest]
    exact hnone
  | succ bound ih =>
    have hnone := nil_follows height cursor
    rw [moreItems, peek_bind]
    cases hrest : cursor.rest with
    | nil =>
      rw [hrest] at hnone
      exact hnone
    | cons lexeme lexemes =>
      rw [hrest] at hnone hbound
      obtain ⟨token, s, t⟩ := lexeme
      cases token with
      | mark mark =>
        cases mark with
        | comma =>
          obtain rfl := Cursor.rest_advance hrest
          have hadvance := Unwinds.advance cursor
          dsimp only [List.head?_cons, Option.map_some]
          rw [advance_bind, Parser.moreItems]
          refine (hexpression (h.of_unwinds hadvance)).bind ?_
          intro first middle hfirst hmiddle
          have hlength : middle.rest.length ≤ bound :=
            Nat.le_trans hmiddle.length_rest_le (Nat.le_of_succ_le_succ hbound)
          refine (ih (h.of_unwinds (hadvance.trans hmiddle.toUnwinds)) hlength).bind ?_
          intro others after _ hothers
          exact .ok (.cons hadvance hfirst hmiddle hothers)
        | _ => exact hnone
      | _ => exact hnone

theorem someItems_follows (hexpression : ExpressionFollows α stop depth height)
    (h : cursor.Allows stop depth) (hopen : cursor.token? ≠ some (.mark .rightParen)) :
    Follows (AllBetween height cursor) (someItems (expression height) cursor)
      (Parser.items (fun lexemes => Parser.expression stop depth lexemes) cursor.rest) := by
  rw [someItems, Parser.items]
  · refine (hexpression h).bind ?_
    intro first middle hfirst hmiddle
    have hnext := h.of_unwinds hmiddle.toUnwinds
    rw [get_bind]
    refine (moreItems_follows hexpression hnext (Nat.le_refl _)).bind ?_
    intro others after _ hothers
    exact .ok (.cons (.refl cursor) hfirst hmiddle hothers)
  · intro s t lexemes hrest
    exact hopen (Cursor.token?_of_rest hrest)

theorem items_follows (hexpression : ExpressionFollows α stop depth height)
    (h : cursor.Allows stop depth) :
    Follows (AllBetween height cursor) (items (expression height) cursor)
      (Parser.items (fun lexemes => Parser.expression stop depth lexemes) cursor.rest) := by
  have hnone := nil_follows height cursor
  have hsome := someItems_follows hexpression h
  rw [Cursor.token?_eq] at hsome
  rw [items, peek_bind]
  cases hrest : cursor.rest with
  | nil =>
    rw [hrest] at hsome
    exact hsome nofun
  | cons lexeme lexemes =>
    rw [hrest] at hsome hnone
    obtain ⟨token, s, t⟩ := lexeme
    cases token with
    | mark mark =>
      cases mark with
      | rightParen => exact hnone
      | _ => exact hsome nofun
    | _ => exact hsome nofun

end

theorem prefixed_follows {depth height : Nat} (build : Expr α → Expr α)
    {x : Nat → Counted α (Expr α)} {y : Nat → Parser.Parse α (Parser.Parsed α (Expr α))}
    (hadvance : Restores cursor cursor.advance) (h : cursor.Allows stop depth)
    (hheight : depth < height)
    (hx : ∀ {depth' height' : Nat}, depth = depth' + 1 →
      (cursor.advance.enter 1).Allows stop depth' → depth' < height' →
      Follows (fun _ after => Restores (cursor.advance.enter 1) after)
        (x height' (cursor.advance.enter 1)) (y depth')) :
    Follows (fun _ after => Restores cursor after)
      ((match height with
        | 0 => trap
        | height + 1 => do
          advance
          enter 1
          let operand ← x height
          leave 1
          return build operand) cursor)
      (match depth with
      | 0 => Parser.tooDeep stop cursor.advance.rest
      | depth + 1 => do
        let (operand, lexemes) ← y depth
        return (build operand, lexemes)) := by
  have hnext := h.of_unwinds hadvance.toUnwinds
  cases height with
  | zero => cases hheight
  | succ height =>
    dsimp only
    rw [advance_bind]
    cases depth with
    | zero => exact enter_follows hnext _ _
    | succ depth =>
      rw [enter_bind hnext.depth_lt]
      refine (hx rfl hnext.enter (Nat.lt_of_succ_lt_succ hheight)).bind ?_
      intro operand after _ hafter
      exact .ok (hadvance.trans_unwinds (hafter.leave hnext.depth_lt).toUnwinds)

def OperandFollows (stop depth height : Nat) (cursor : Cursor α) : Prop :=
  Follows (NestsAlike height cursor) (operand height cursor)
    (Parser.operand stop depth cursor.rest)

section

variable {depth height s t : Nat} {lexemes : List (Lexeme α)}

theorem parenthesised_follows (hexpression : ExpressionFollows α stop depth height)
    (h : cursor.Allows stop depth) (hrest : cursor.rest = ⟨.mark .leftParen, s, t⟩ :: lexemes) :
    OperandFollows stop depth height cursor := by
  obtain rfl := Cursor.rest_advance hrest
  have hadvance := Restores.advance hrest
  have hnext := h.of_unwinds hadvance.toUnwinds
  rw [OperandFollows, operand, get_bind, peek_bind, hrest, Parser.operand]
  dsimp only [List.head?_cons, Option.map_some]
  rw [advance_bind]
  refine (hexpression hnext).bind ?_
  intro inner middle _ hmiddle
  refine (expect_follows .rightParen (hmiddle.stop.trans hnext.stop)).bind ?_
  intro close after _ hafter
  have hrestores := hadvance.trans_unwinds (hmiddle.trans_unwinds hafter).toUnwinds
  exact .ok (.of_token? hrestores (Cursor.token?_of_rest hrest) nofun nofun _)

theorem choice_follows (hexpression : ExpressionFollows α stop depth height)
    (h : cursor.Allows stop depth) (hrest : cursor.rest = ⟨.mark .ifWord, s, t⟩ :: lexemes) :
    OperandFollows stop depth height cursor := by
  obtain rfl := Cursor.rest_advance hrest
  have htoken := Cursor.token?_of_rest hrest
  have hadvance := Restores.advance hrest
  have hnext := h.of_unwinds hadvance.toUnwinds
  rw [OperandFollows, operand, get_bind, peek_bind, hrest, Parser.operand]
  dsimp only [List.head?_cons, Option.map_some]
  rw [advance_bind]
  refine (hexpression hnext).bind ?_
  intro condition cursor₁ hcondition h₁
  have hnext₁ := hnext.of_unwinds h₁.toUnwinds
  refine (expect_follows .thenWord hnext₁.stop).bind ?_
  intro _ cursor₂ _ h₂
  have hnext₂ := hnext₁.of_unwinds h₂
  refine (hexpression hnext₂).bind ?_
  intro whenTrue cursor₃ hwhenTrue h₃
  have hnext₃ := hnext₂.of_unwinds h₃.toUnwinds
  refine (expect_follows .elseWord hnext₃.stop).bind ?_
  intro _ cursor₄ _ h₄
  refine (hexpression (hnext₃.of_unwinds h₄)).bind ?_
  intro whenFalse after hwhenFalse h₅
  have hparts : AllBetween height cursor [condition, whenTrue, whenFalse] after :=
    .cons hadvance.toUnwinds hcondition h₁ <| .cons h₂ hwhenTrue h₃ <|
      .cons h₄ hwhenFalse h₅ <| .nil (.refl after)
  have hbehind : Unwinds 0 cursor.advance after :=
    h₁.trans <| h₂.trans <| h₃.trans <| h₄.trans h₅.toUnwinds
  exact .ok ⟨hadvance.trans_unwinds hbehind, fun _ => ⟨_, _, _, rfl, hparts⟩,
    fun name hname => absurd (Option.some.inj (htoken.symm.trans hname)) nofun⟩

theorem call_follows (hexpression : ExpressionFollows α stop depth height)
    (h : cursor.Allows stop depth) {name : String} {s' t' : Nat} {others : List (Lexeme α)}
    (hrest : cursor.rest = ⟨.name name, s, t⟩ :: lexemes)
    (hcall : cursor.advance.rest = ⟨.mark .leftParen, s', t'⟩ :: others) :
    OperandFollows stop depth height cursor := by
  obtain rfl := Cursor.rest_advance hrest
  obtain rfl := Cursor.rest_advance hcall
  have htoken := Cursor.token?_of_rest hrest
  have hadvance := Restores.advance hrest
  have hopening := Unwinds.advance cursor.advance
  have hinside := h.of_unwinds (hadvance.toUnwinds.trans hopening)
  have hoffset : cursor.offset = s := by
    rw [Cursor.offset_eq, hrest]
    rfl
  rw [OperandFollows, operand, get_bind, peek_bind, hrest, hoffset]
  unfold Parser.operand
  dsimp only [List.head?_cons, Option.map_some]
  rw [advance_bind, peek_bind, hcall]
  dsimp only [List.head?_cons, Option.map_some]
  cases Extremum.ofName? name with
  | none => exact .error _
  | some function =>
    dsimp only
    rw [advance_bind]
    refine (items_follows hexpression hinside).bind ?_
    intro arguments middle _ harguments
    refine (expect_follows .rightParen (hinside.of_unwinds harguments.unwinds).stop).bind ?_
    intro _ after _ hafter
    dsimp only
    split
    next => exact .error _
    next =>
      have hwide := harguments.widen (hadvance.toUnwinds.trans hopening) hafter
      exact .ok ⟨hadvance.trans_unwinds (hopening.trans (harguments.unwinds.trans hafter)),
        fun hif => absurd (Option.some.inj (htoken.symm.trans hif)) nofun,
        fun _ _ _ => ⟨function, arguments, rfl, hwide⟩⟩

theorem variable_follows {name : String} (hrest : cursor.rest = ⟨.name name, s, t⟩ :: lexemes)
    (hplain : cursor.advance.token? ≠ some (.mark .leftParen)) :
    OperandFollows stop depth height cursor := by
  have hok : Follows (NestsAlike height cursor)
      (.safe (.ok (.var name, cursor.advance))) (.ok (.var name, cursor.advance.rest)) :=
    .ok ⟨.advance hrest,
      fun hif => absurd (Option.some.inj ((Cursor.token?_of_rest hrest).symm.trans hif)) nofun,
      fun _ _ hparen => absurd hparen hplain⟩
  obtain rfl := Cursor.rest_advance hrest
  rw [Cursor.token?_eq] at hplain
  rw [OperandFollows, operand, get_bind, peek_bind, hrest]
  unfold Parser.operand
  dsimp only [List.head?_cons, Option.map_some]
  rw [advance_bind, peek_bind]
  cases hnext : cursor.advance.rest with
  | nil =>
    rw [hnext] at hok
    exact hok
  | cons lexeme others =>
    rw [hnext] at hok hplain
    obtain ⟨token, s', t'⟩ := lexeme
    cases token with
    | mark mark =>
      cases mark with
      | leftParen => exact absurd rfl hplain
      | _ => exact hok
    | _ => exact hok

theorem operand_follows (hexpression : ExpressionFollows α stop depth height)
    (h : cursor.Allows stop depth) : OperandFollows stop depth height cursor := by
  have hrefuse : Follows (NestsAlike height cursor) (refuse .unexpected cursor)
      (Parser.refuse stop cursor.rest .unexpected) := refuse_follows _ _ h.stop
  cases hrest : cursor.rest with
  | nil =>
    rw [OperandFollows, operand, get_bind, peek_bind]
    unfold Parser.operand
    rw [hrest] at hrefuse ⊢
    exact hrefuse
  | cons lexeme lexemes =>
    obtain ⟨token, s, t⟩ := lexeme
    cases token with
    | name name =>
      by_cases hcall : cursor.advance.token? = some (.mark .leftParen)
      · obtain ⟨⟨token, s', t'⟩, others, hnext, rfl⟩ := Cursor.exists_rest_of_token? hcall
        exact call_follows hexpression h hrest hnext
      · exact variable_follows hrest hcall
    | mark mark =>
      cases mark with
      | leftParen => exact parenthesised_follows hexpression h hrest
      | ifWord => exact choice_follows hexpression h hrest
      | _ =>
        rw [OperandFollows, operand, get_bind, peek_bind]
        unfold Parser.operand
        rw [hrest] at hrefuse ⊢
        exact hrefuse
    | number value =>
      have hadvance := Restores.advance hrest
      have htoken := Cursor.token?_of_rest hrest
      obtain rfl := Cursor.rest_advance hrest
      rw [OperandFollows, operand, get_bind, peek_bind, hrest, Parser.operand]
      exact .ok (.of_token? hadvance htoken nofun nofun _)
    | operator op =>
      rw [OperandFollows, operand, get_bind, peek_bind]
      unfold Parser.operand
      rw [hrest] at hrefuse ⊢
      exact hrefuse

end

theorem level_of_no_sign {height : Nat} {which tighter : Level} {sign : Token α}
    {apply : Expr α → Expr α} (hsign : which.TakesSign sign apply tighter)
    (hplain : ∀ ts, cursor.rest.map (·.token) ≠ sign :: ts) :
    level which height cursor = level tighter height cursor := by
  have hhead : cursor.rest.head?.map (·.token) ≠ some sign := by
    intro heq
    rw [← List.head?_map, List.head?_eq_some_iff] at heq
    obtain ⟨ts, hts⟩ := heq
    exact hplain ts hts
  cases hsign
  all_goals
    conv => lhs; unfold level
    rw [peek_bind]
    cases height
  all_goals
    refine congrFun ?_ cursor
    split
    next heq => exact absurd heq hhead
    next => rfl

theorem signed_follows {depth height : Nat} {which tighter : Level} {sign : Token α}
    {apply : Expr α → Expr α} (hsign : which.TakesSign sign apply tighter)
    (hheight : depth < height) (h : cursor.Allows stop depth)
    (hoperand : ∀ {depth' height' : Nat} {deeper : Cursor α}, depth = depth' + 1 →
      deeper.Allows stop depth' → depth' < height' →
      Follows (fun _ after => Restores deeper after) (level which height' deeper)
        (Parser.level stop which depth' deeper.rest))
    (htighter : Follows (fun _ after => Restores cursor after) (level tighter height cursor)
      (Parser.level stop tighter depth cursor.rest)) :
    Follows (fun _ after => Restores cursor after) (level which height cursor)
      (Parser.level stop which depth cursor.rest) := by
  rcases exists_lexeme_or_ne sign cursor.rest with ⟨s, t, rest, hrest⟩ | hplain
  · obtain rfl := Cursor.rest_advance hrest
    cases hsign
    all_goals
      unfold level Parser.level
      rw [peek_bind, hrest]
      exact prefixed_follows _ (.advance hrest) h hheight fun hdepth => hoperand hdepth
  · rw [Parser.level_of_no_sign hsign hplain, level_of_no_sign hsign hplain]
    exact htighter

mutual

theorem expression_follows {stop depth height : Nat} (hheight : depth < height) :
    ExpressionFollows α stop depth height := by
  intro cursor h
  cases height with
  | zero => cases hheight
  | succ height =>
    rw [expression]
    cases depth with
    | zero =>
      rw [Parser.expression]
      exact enter_follows h _ _
    | succ depth =>
      rw [Parser.expression, enter_bind h.depth_lt, ← bind_pure (Parser.level _ _ _ _)]
      refine (level_follows (Nat.lt_of_succ_lt_succ hheight) h.enter).bind ?_
      intro expr after _ hafter
      exact .ok (hafter.leave h.depth_lt)
termination_by 10 * depth
decreasing_by
  simp only [Level.rank]
  omega

theorem level_follows {stop depth height : Nat} {cursor : Cursor α} {which : Level}
    (hheight : depth < height) (h : cursor.Allows stop depth) :
    Follows (fun _ after => Restores cursor after) (level which height cursor)
      (Parser.level stop which depth cursor.rest) := by
  cases which with
  | chain chain =>
    rw [level, Parser.level]
    refine (level_follows hheight h).bind ?_
    intro left middle _ hmiddle
    have hnext := h.of_unwinds hmiddle.toUnwinds
    refine (joined_follows left hheight (Nat.zero_le _) hnext).imp ?_
    intro _ after hafter
    exact hmiddle.trans_unwinds hafter
  | negation =>
    refine signed_follows .negation hheight h (fun hdepth hdeeper hheight => ?_) ?_
    · exact level_follows hheight hdeeper
    · exact level_follows hheight h
  | comparison =>
    rw [level, Parser.level]
    refine (level_follows hheight h).bind ?_
    intro left middle _ hmiddle
    have hmid := h.of_unwinds hmiddle.toUnwinds
    rw [operator?_bind]
    dsimp only
    cases hop : Parser.operator? Operator.compares middle.rest with
    | none => exact .ok hmiddle
    | some found =>
      obtain ⟨op, lexemes⟩ := found
      obtain ⟨_, lexeme, hrest, _⟩ := Parser.exists_lexeme_of_operator? hop
      obtain rfl := Cursor.rest_advance hrest
      have hadvance := Restores.advance hrest
      dsimp only [Option.map_some]
      rw [advance_bind]
      refine (level_follows hheight (hmid.of_unwinds hadvance.toUnwinds)).bind ?_
      intro right after _ hafter
      exact .ok (hmiddle.trans_unwinds (hadvance.trans_unwinds hafter.toUnwinds).toUnwinds)
  | minus =>
    refine signed_follows .minus hheight h (fun hdepth hdeeper hheight => ?_) ?_
    · exact level_follows hheight hdeeper
    · exact level_follows hheight h
  | operand =>
    rw [level, Parser.level]
    refine (operand_follows (expression_follows hheight) h).imp ?_
    intro _ after hafter
    exact hafter.toRestores
termination_by 10 * depth + 1 + which.rank
decreasing_by
  · have := Chain.rank_operands_lt chain
    omega
  all_goals
    simp only [Level.rank]
    omega

theorem joined_follows {stop depth height levels : Nat} {cursor : Cursor α} {chain : Chain}
    (left : Expr α) (hheight : depth < height) (hlevels : levels ≤ cursor.depth)
    (h : cursor.Allows stop depth) :
    Follows (fun _ after => Unwinds levels cursor after)
      (joined chain left levels height cursor)
      (Parser.joined stop chain depth left cursor.rest) := by
  rw [joined, operator?_bind]
  unfold Parser.joined
  cases hop : Parser.operator? chain.joins cursor.rest with
  | none => exact .ok (.leave hlevels)
  | some found =>
    -- The level of the next operand is left with the others, at the end of the chain.
    obtain ⟨op, lexemes⟩ := found
    obtain ⟨_, lexeme, hrest, _⟩ := Parser.exists_lexeme_of_operator? hop
    obtain rfl := Cursor.rest_advance hrest
    have hadvance := Unwinds.advance cursor
    have hdeeper := h.of_unwinds hadvance
    cases height with
    | zero => cases hheight
    | succ height =>
      dsimp only [Option.map_some]
      rw [advance_bind]
      cases depth with
      | zero => exact enter_follows hdeeper _ _
      | succ depth =>
        have hheight := Nat.lt_of_succ_lt_succ hheight
        rw [enter_bind hdeeper.depth_lt]
        refine (level_follows hheight hdeeper.enter).bind ?_
        intro right middle _ hmiddle
        refine (joined_follows _ hheight ?_ (hdeeper.enter.of_unwinds hmiddle.toUnwinds)).imp ?_
        · have hdepth : middle.depth = cursor.advance.depth + 1 := hmiddle.depth
          have hsame : cursor.advance.depth = cursor.depth := hadvance.depth
          omega
        · intro _ after hafter
          exact hadvance.trans ((hmiddle.toUnwinds.trans hafter).of_enter hdeeper.depth_lt)
termination_by 10 * depth
decreasing_by
  all_goals have := Level.rank_le chain.operands
  all_goals omega

end

/--
Every part of the parser restores the counter. From any place where the counter is not too large
already, it ends with the outcome of the parser that is told the nesting that is left, whatever
height more than that it is given. Where the outcome is a result, the lexemes are the same, at least
one of them is used up, the counter is what it was, and on the way it was never greater than
`maxNesting` and never drawn below zero. Hence the parts of a choice and the arguments of a call are
all parsed with the same nesting left, however many of them there are.
-/
theorem restores_nesting {cursor : Cursor α} (hdepth : cursor.depth ≤ maxNesting) {height : Nat}
    (hheight : maxNesting < cursor.depth + height) :
    Follows (fun _ after => Restores cursor after) (expression height cursor)
      (Parser.expression cursor.stop (maxNesting - cursor.depth) cursor.rest) ∧
    (∀ which, Follows (fun _ after => Restores cursor after) (level which height cursor)
      (Parser.level cursor.stop which (maxNesting - cursor.depth) cursor.rest)) ∧
    Follows (NestsAlike height cursor) (operand height cursor)
      (Parser.operand cursor.stop (maxNesting - cursor.depth) cursor.rest) := by
  have h : cursor.Allows cursor.stop (maxNesting - cursor.depth) :=
    ⟨rfl, Nat.add_sub_cancel' hdepth⟩
  have hleft : maxNesting - cursor.depth < height := by omega
  exact ⟨expression_follows hleft h, fun which => level_follows hleft h,
    operand_follows (expression_follows hleft) h⟩

/--
The place in `x*if a then max(b,c,-d) else e` where the choice begins. The choice takes up three
levels of nesting, and three levels are left.
-/
def choiceCursor : Cursor Float where
  lexemes :=
    [⟨.name "x", 0, 1⟩, ⟨.operator .mul, 1, 2⟩, ⟨.mark .ifWord, 2, 4⟩, ⟨.name "a", 5, 6⟩,
      ⟨.mark .thenWord, 7, 11⟩, ⟨.name "max", 12, 15⟩, ⟨.mark .leftParen, 15, 16⟩,
      ⟨.name "b", 16, 17⟩, ⟨.mark .comma, 17, 18⟩, ⟨.name "c", 18, 19⟩, ⟨.mark .comma, 19, 20⟩,
      ⟨.operator .sub, 20, 21⟩, ⟨.name "d", 21, 22⟩, ⟨.mark .rightParen, 22, 23⟩,
      ⟨.mark .elseWord, 24, 28⟩, ⟨.name "e", 29, 30⟩]
  position := 2
  stop := 30
  depth := 125
  peak := 125
  overdrawn := false

theorem restores_nesting_choiceCursor :
    choiceCursor.depth ≤ maxNesting ∧ maxNesting < choiceCursor.depth + 4 ∧
    ∃ condition whenTrue whenFalse after,
      operand 4 choiceCursor = .safe (.ok (.choose condition whenTrue whenFalse, after)) ∧
      after.rest = [] ∧ Restores choiceCursor after ∧
      AllBetween 4 choiceCursor [condition, whenTrue, whenFalse] after := by
  have hdepth : choiceCursor.depth ≤ maxNesting := by decide
  have hheight : maxNesting < choiceCursor.depth + 4 := by decide
  obtain ⟨⟨expr, rest⟩, hparse, hrest⟩ := exists_ok_of_any (p := fun parsed => parsed.2.isEmpty)
    (x := Parser.operand choiceCursor.stop (maxNesting - choiceCursor.depth) choiceCursor.rest)
    (by decide +kernel)
  have hfollows := (restores_nesting hdepth hheight).2.2
  rw [hparse] at hfollows
  obtain ⟨after, hrun, rfl, hnests⟩ := hfollows.exists_of_ok
  obtain ⟨condition, whenTrue, whenFalse, rfl, hparts⟩ := hnests.choice rfl
  exact ⟨hdepth, hheight, condition, whenTrue, whenFalse, after, hrun, List.isEmpty_iff.1 hrest,
    hnests.toRestores, hparts⟩

end Counted

end Tariff.Formula
