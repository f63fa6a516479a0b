import Tariff.Formula.Basic
import Tariff.Proofs.Fault
import Tariff.Proofs.Formula.Grammar

/-!
This module contains the soundness of the parser: what it returns is a tree that the grammar has for
the tokens that were used up.
-/

namespace Tariff

/--
What a calculation returns, if anything, meets a condition.
-/
def Gives {ε β : Type} (p : β → Prop) (x : Except ε β) : Prop :=
  ∀ b, x = .ok b → p b

namespace Gives

variable {ε β γ : Type} {p q : β → Prop} {b : β}

theorem ok (h : p b) : Gives p (.ok b : Except ε β) := by
  intro b' heq
  cases heq
  exact h

theorem error (fault : ε) : Gives p (.error fault) := by
  intro b heq
  cases heq

theorem imp {x : Except ε β} (hx : Gives p x) (hpq : ∀ b, p b → q b) : Gives q x := by
  intro b h
  exact hpq b (hx b h)

theorem bind {q : γ → Prop} {x : Except ε β} {f : β → Except ε γ} (hx : Gives p x)
    (hf : ∀ b, p b → Gives q (f b)) : Gives q (x >>= f) := by
  cases x with
  | error fault => exact error fault
  | ok b => exact hf b (hx b rfl)

end Gives

namespace Formula

variable {α β : Type}

theorem exists_lexeme_of_map_token {lexemes : List (Lexeme α)} {t : Token α} {ts : List (Token α)}
    (h : lexemes.map (·.token) = t :: ts) :
    ∃ start stop rest, lexemes = ⟨t, start, stop⟩ :: rest ∧ rest.map (·.token) = ts := by
  obtain ⟨⟨_, start, stop⟩, rest, rfl, rfl, hrest⟩ := List.map_eq_cons_iff.1 h
  exact ⟨start, stop, rest, rfl, hrest⟩

theorem exists_lexeme_or_ne (t : Token α) (lexemes : List (Lexeme α)) :
    (∃ start stop rest, lexemes = ⟨t, start, stop⟩ :: rest) ∨
      ∀ ts, lexemes.map (·.token) ≠ t :: ts := by
  by_cases h : ∃ ts, lexemes.map (·.token) = t :: ts
  · obtain ⟨ts, hts⟩ := h
    obtain ⟨start, stop, rest, hlexemes, _⟩ := exists_lexeme_of_map_token hts
    exact .inl ⟨start, stop, rest, hlexemes⟩
  · exact .inr (not_exists.1 h)

namespace Parser

/--
Something was parsed from the front of lexemes: its tokens are a phrase of a level.
-/
def Reads (which : Level) (lexemes : List (Lexeme α)) (parsed : Parsed α (Expr α)) : Prop :=
  ∃ ts, lexemes.map (·.token) = ts ++ parsed.2.map (·.token) ∧ Derives which ts parsed.1

theorem refuse_gives (stop : Nat) (lexemes : List (Lexeme α))
    (cause : Option (Token α) → ParseCause α) (p : Parsed α β → Prop) :
    Gives p (refuse stop lexemes cause) := by
  apply Gives.error

@[simp]
theorem expect_mark (stop : Nat) (mark : Mark) (s t : Nat) (rest : List (Lexeme α)) :
    expect stop mark (⟨.mark mark, s, t⟩ :: rest) = .ok (⟨.mark mark, s, t⟩, rest) := by
  simp [expect]

@[simp]
theorem expectName_name (stop : Nat) (name : String) (s t : Nat) (rest : List (Lexeme α)) :
    expectName stop (⟨.name name, s, t⟩ :: rest) = .ok (name, rest) := by
  simp [expectName]

theorem expect_gives (stop : Nat) (mark : Mark) (lexemes : List (Lexeme α)) :
    Gives (fun parsed => lexemes = parsed.1 :: parsed.2 ∧ parsed.1.token = .mark mark)
      (expect stop mark lexemes) := by
  unfold expect
  split
  next =>
    split
    next hmark => exact .ok ⟨rfl, by rw [hmark]⟩
    next => apply refuse_gives
  next => apply refuse_gives

theorem expectName_gives (stop : Nat) (lexemes : List (Lexeme α)) :
    Gives (fun parsed => ∃ lexeme, lexemes = lexeme :: parsed.2 ∧ lexeme.token = .name parsed.1)
      (expectName stop lexemes) := by
  unfold expectName
  split
  next => exact .ok ⟨_, rfl, rfl⟩
  next => apply refuse_gives

theorem exists_lexeme_of_operator? {wanted : Operator → Bool} {lexemes rest : List (Lexeme α)}
    {op : Operator} (h : operator? wanted lexemes = some (op, rest)) :
    wanted op = true ∧ ∃ lexeme, lexemes = lexeme :: rest ∧ lexeme.token = .operator op := by
  unfold operator? at h
  split at h
  next =>
    split at h
    next hwanted =>
      cases h
      exact ⟨hwanted, _, rfl, rfl⟩
    next => cases h
  next => cases h

def commaSeparated (parts : List (List (Token α) × β)) : List (Token α) :=
  parts.flatMap fun part => .mark .comma :: part.1

theorem intercalate_eq_append_commaSeparated (part : List (Token α) × β)
    (parts : List (List (Token α) × β)) :
    [.mark .comma].intercalate ((part :: parts).map (·.1)) = part.1 ++ commaSeparated parts := by
  induction parts generalizing part with
  | nil => simp [commaSeparated]
  | cons next parts ih =>
    have := ih next
    simp only [List.map_cons] at this
    simp only [List.map_cons, List.intercalate_cons_cons, this]
    simp [commaSeparated]

theorem moreItems_reads {item : List (Lexeme α) → Parse α (Parsed α (Expr α))}
    (hitem : ∀ lexemes, Gives (Reads (.chain .disjunction) lexemes) (item lexemes))
    (bound : Nat) (lexemes : List (Lexeme α)) :
    Gives (fun parsed => ∃ parts : List (List (Token α) × Expr α),
        lexemes.map (·.token) = commaSeparated parts ++ parsed.2.map (·.token) ∧
        parsed.1 = parts.map (·.2) ∧
        ∀ part ∈ parts, Derives (.chain .disjunction) part.1 part.2)
      (moreItems item bound lexemes) := by
  induction bound generalizing lexemes with
  | zero => exact .ok ⟨[], rfl, rfl, by simp⟩
  | succ bound ih =>
    unfold moreItems
    split
    next _ _ _ lexemes hbound =>
      cases hbound
      refine Gives.bind (hitem lexemes) ?_
      rintro ⟨first, lexemes'⟩ ⟨ts, hts, hfirst⟩
      refine Gives.bind (ih lexemes') ?_
      rintro ⟨others, rest⟩ ⟨parts, hrest, rfl, hparts⟩
      refine .ok ⟨(ts, first) :: parts, ?_, rfl, ?_⟩
      · simp_all [commaSeparated]
      · simp_all
    next => exact .ok ⟨[], rfl, rfl, by simp⟩

theorem items_reads {item : List (Lexeme α) → Parse α (Parsed α (Expr α))}
    (hitem : ∀ lexemes, Gives (Reads (.chain .disjunction) lexemes) (item lexemes))
    (lexemes : List (Lexeme α)) :
    Gives (fun parsed => ∃ parts : List (List (Token α) × Expr α),
        lexemes.map (·.token) =
          [.mark .comma].intercalate (parts.map (·.1)) ++ parsed.2.map (·.token) ∧
        parsed.1 = parts.map (·.2) ∧
        ∀ part ∈ parts, Derives (.chain .disjunction) part.1 part.2)
      (items item lexemes) := by
  unfold items
  split
  next => exact .ok ⟨[], rfl, rfl, by simp⟩
  next =>
    refine Gives.bind (hitem lexemes) ?_
    rintro ⟨first, lexemes'⟩ ⟨ts, hts, hfirst⟩
    refine Gives.bind (moreItems_reads hitem _ lexemes') ?_
    rintro ⟨others, rest⟩ ⟨parts, hrest, rfl, hparts⟩
    refine .ok ⟨(ts, first) :: parts, ?_, rfl, ?_⟩
    · rw [intercalate_eq_append_commaSeparated]
      simp_all
    · simp_all

theorem Extremum.eq_word_of_ofName? {name : String} {function : Extremum}
    (h : Extremum.ofName? name = some function) : name = function.word := by
  unfold Extremum.ofName? at h
  split at h
  all_goals cases h
  all_goals rfl

section

variable {stop depth : Nat} {which tighter : Level} {sign : Token α} {apply : Expr α → Expr α}
  {lexemes : List (Lexeme α)}

theorem level_of_sign (hsign : which.TakesSign sign apply tighter) (s t : Nat) :
    level stop which depth (⟨sign, s, t⟩ :: lexemes) =
      match depth with
      | 0 => tooDeep stop lexemes
      | depth + 1 => do
        let (operand, rest) ← level stop which depth lexemes
        return (apply operand, rest) := by
  cases hsign
  all_goals cases depth <;> rw [level]

theorem level_of_no_sign (hsign : which.TakesSign sign apply tighter)
    (h : ∀ ts, lexemes.map (·.token) ≠ sign :: ts) :
    level stop which depth lexemes = level stop tighter depth lexemes := by
  cases hsign
  all_goals
    rw [level]
    rintro start stop rest rfl
    exact h _ rfl

theorem signed_reads (hsign : which.TakesSign sign apply tighter)
    (hoperand : ∀ {depth' : Nat} (rest : List (Lexeme α)), depth = depth' + 1 →
      Gives (Reads which rest) (level stop which depth' rest))
    (htighter : Gives (Reads tighter lexemes) (level stop tighter depth lexemes)) :
    Gives (Reads which lexemes) (level stop which depth lexemes) := by
  rcases exists_lexeme_or_ne sign lexemes with ⟨s, t, rest, rfl⟩ | hplain
  · rw [level_of_sign hsign]
    cases depth with
    | zero => apply refuse_gives
    | succ depth =>
      refine Gives.bind (hoperand rest rfl) ?_
      rintro ⟨operand, rest'⟩ ⟨ts, hts, hoperand⟩
      exact .ok ⟨sign :: ts, by simp [hts], hoperand.sign hsign⟩
  · rw [level_of_no_sign hsign hplain]
    refine Gives.imp htighter ?_
    rintro _ ⟨ts, hts, hexpr⟩
    exact ⟨ts, hts, hexpr.unsigned hsign⟩

end

mutual

theorem expression_reads (stop depth : Nat) (lexemes : List (Lexeme α)) :
    Gives (Reads (.chain .disjunction) lexemes) (expression stop depth lexemes) := by
  cases depth with
  | zero =>
    rw [expression]
    apply refuse_gives
  | succ depth =>
    rw [expression]
    exact level_reads stop (.chain .disjunction) depth lexemes
termination_by 10 * depth
decreasing_by
  simp only [Level.rank]
  omega

theorem level_reads (stop : Nat) (which : Level) (depth : Nat) (lexemes : List (Lexeme α)) :
    Gives (Reads which lexemes) (level stop which depth lexemes) := by
  cases which with
  | chain chain =>
    rw [level]
    refine Gives.bind (level_reads stop chain.operands depth lexemes) ?_
    rintro ⟨left, lexemes'⟩ ⟨ts, hts, hleft⟩
    refine Gives.imp (joined_reads stop chain depth hleft.single lexemes') ?_
    rintro ⟨expr, rest⟩ ⟨us, hus, hexpr⟩
    exact ⟨ts ++ us, by simp_all, hexpr⟩
  | negation =>
    apply signed_reads .negation
    · exact fun rest hdepth => level_reads stop .negation _ rest
    · exact level_reads stop .comparison depth lexemes
  | comparison =>
    rw [level]
    refine Gives.bind (level_reads stop (.chain .sum) depth lexemes) ?_
    rintro ⟨left, lexemes'⟩ ⟨ts, hts, hleft⟩
    dsimp only
    split
    next => exact .ok ⟨ts, hts, .sum hleft⟩
    next op lexemes'' hop =>
      refine Gives.bind (level_reads stop (.chain .sum) depth lexemes'') ?_
      rintro ⟨right, rest⟩ ⟨us, hus, hright⟩
      obtain ⟨hcompares, lexeme, rfl, hlexeme⟩ := exists_lexeme_of_operator? hop
      refine .ok ⟨ts ++ .operator op :: us, by simp_all, .compare ?_ hleft hright⟩
      exact Operator.compares_iff.1 hcompares
  | minus =>
    apply signed_reads .minus
    · exact fun rest hdepth => level_reads stop .minus _ rest
    · exact level_reads stop .operand depth lexemes
  | operand =>
    rw [level]
    exact operand_reads stop depth lexemes
termination_by 10 * depth + 1 + which.rank
decreasing_by
  · have := Chain.rank_operands_lt chain
    omega
  all_goals
    simp only [Level.rank]
    omega

theorem joined_reads (stop : Nat) (chain : Chain) (depth : Nat) {ts : List (Token α)}
    {left : Expr α} (hleft : Derives (.chain chain) ts left) (lexemes : List (Lexeme α)) :
    Gives (fun parsed => ∃ us, lexemes.map (·.token) = us ++ parsed.2.map (·.token) ∧
        Derives (.chain chain) (ts ++ us) parsed.1)
      (joined stop chain depth left lexemes) := by
  rw [joined]
  split
  next => exact .ok ⟨[], rfl, by simpa using hleft⟩
  next op lexemes' hop =>
    obtain ⟨hjoins, lexeme, rfl, hlexeme⟩ := exists_lexeme_of_operator? hop
    split
    next => apply refuse_gives
    next depth =>
      refine Gives.bind (level_reads stop chain.operands depth lexemes') ?_
      rintro ⟨right, lexemes''⟩ ⟨us, hus, hright⟩
      refine Gives.imp (joined_reads stop chain depth (hleft.join hjoins hright) lexemes'') ?_
      rintro ⟨expr, rest⟩ ⟨vs, hvs, hexpr⟩
      exact ⟨.operator op :: us ++ vs, by simp_all, by simpa using hexpr⟩
termination_by 10 * depth
decreasing_by
  all_goals have := Level.rank_le chain.operands
  all_goals omega

theorem operand_reads (stop depth : Nat) (lexemes : List (Lexeme α)) :
    Gives (Reads .operand lexemes) (operand stop depth lexemes) := by
  unfold operand
  split
  next value _ _ rest => exact .ok ⟨[.number value], rfl, .number value⟩
  next lexemes =>
    refine Gives.bind (expression_reads stop depth lexemes) ?_
    rintro ⟨inner, lexemes'⟩ ⟨ts, hts, hinner⟩
    refine Gives.bind (expect_gives stop .rightParen lexemes') ?_
    rintro ⟨close, rest⟩ ⟨rfl, hclose⟩
    exact .ok ⟨.mark .leftParen :: ts ++ [.mark .rightParen], by simp_all, .parens hinner⟩
  next lexemes =>
    refine Gives.bind (expression_reads stop depth lexemes) ?_
    rintro ⟨condition, lexemes₁⟩ ⟨ts, hts, hcondition⟩
    refine Gives.bind (expect_gives stop .thenWord lexemes₁) ?_
    rintro ⟨thenWord, lexemes₂⟩ ⟨rfl, hthen⟩
    refine Gives.bind (expression_reads stop depth lexemes₂) ?_
    rintro ⟨whenTrue, lexemes₃⟩ ⟨us, hus, hwhenTrue⟩
    refine Gives.bind (expect_gives stop .elseWord lexemes₃) ?_
    rintro ⟨elseWord, lexemes₄⟩ ⟨rfl, helse⟩
    refine Gives.bind (expression_reads stop depth lexemes₄) ?_
    rintro ⟨whenFalse, rest⟩ ⟨vs, hvs, hwhenFalse⟩
    refine .ok ⟨_, ?_, .choose hcondition hwhenTrue hwhenFalse⟩
    simp_all
  next name start _ lexemes =>
    split
    next lexemes =>
      split
      next => apply Gives.error
      next function hfunction =>
        obtain rfl := Extremum.eq_word_of_ofName? hfunction
        refine Gives.bind (items_reads (expression_reads stop depth) lexemes) ?_
        rintro ⟨arguments, lexemes'⟩ ⟨parts, hlexemes, rfl, hparts⟩
        refine Gives.bind (expect_gives stop .rightParen lexemes') ?_
        rintro ⟨close, rest⟩ ⟨rfl, hclose⟩
        dsimp only
        split
        next => apply Gives.error
        next hlength =>
          have hlength : 2 ≤ parts.length := by
            rw [List.length_map] at hlength
            omega
          refine .ok ⟨_, ?_, .call function parts hlength hparts⟩
          simp_all
    next => exact .ok ⟨[.name name], rfl, .var name⟩
  next => apply refuse_gives
termination_by 10 * depth + 1

end

end Parser

theorem derives_of_parseExpression {stop : Nat} {lexemes : List (Lexeme α)} {expr : Expr α}
    (h : parseExpression stop lexemes = .ok expr) :
    Derives (.chain .disjunction) (lexemes.map (·.token)) expr := by
  revert expr
  change Gives _ _
  unfold parseExpression
  split
  next => apply Gives.error
  next =>
    split
    next => apply Gives.error
    next =>
      refine Gives.bind (Parser.expression_reads stop maxNesting lexemes) ?_
      rintro ⟨expr, rest⟩ ⟨ts, hts, hexpr⟩
      dsimp only
      split
      next => exact .ok (by simpa [hts] using hexpr)
      next => apply Gives.error

theorem parseLookup_wrapped (source : List Char) (key : String) (body : List (Lexeme α))
    (s₁ s₂ s₃ s₄ s₅ t₁ t₂ t₃ t₄ t₅ : Nat) :
    parseLookup source (⟨.mark .leftParen, s₁, t₁⟩ :: ⟨.name key, s₂, t₂⟩ ::
        ⟨.mark .rightParen, s₃, t₃⟩ :: ⟨.mark .leftBrace, s₄, t₄⟩ ::
        (body ++ [⟨.mark .rightBrace, s₅, t₅⟩])) =
      (parseExpression s₅ body).map fun expr =>
        { key := some key, body := .ofList (Text.slice source t₄ s₅), expr } := by
  unfold parseLookup
  simp only [Parser.expect_mark, Parser.expectName_name, ok_bind, List.getLast?_concat,
    List.dropLast_concat]
  cases parseExpression s₅ body with
  | error error => rfl
  | ok expr => rfl

theorem exists_wrapped_of_parseLookup {source : List Char} {lexemes : List (Lexeme α)}
    {formula : Formula α} (h : parseLookup source lexemes = .ok formula) :
    ∃ key body s₁ s₂ s₃ s₄ s₅ t₁ t₂ t₃ t₄ t₅,
      lexemes = ⟨.mark .leftParen, s₁, t₁⟩ :: ⟨.name key, s₂, t₂⟩ ::
        ⟨.mark .rightParen, s₃, t₃⟩ :: ⟨.mark .leftBrace, s₄, t₄⟩ ::
        (body ++ [⟨.mark .rightBrace, s₅, t₅⟩]) ∧
      parseExpression s₅ body = .ok formula.expr ∧
      formula.key = some key ∧
      formula.body = .ofList (Text.slice source t₄ s₅) := by
  revert formula
  change Gives _ _
  unfold parseLookup
  refine Gives.bind (Parser.expect_gives _ _ _) ?_
  rintro ⟨⟨_, s₁, t₁⟩, lexemes₁⟩ ⟨rfl, rfl⟩
  refine Gives.bind (Parser.expectName_gives _ _) ?_
  rintro ⟨key, lexemes₂⟩ ⟨⟨_, s₂, t₂⟩, rfl, rfl⟩
  refine Gives.bind (Parser.expect_gives _ _ _) ?_
  rintro ⟨⟨_, s₃, t₃⟩, lexemes₃⟩ ⟨rfl, rfl⟩
  refine Gives.bind (Parser.expect_gives _ _ _) ?_
  rintro ⟨⟨_, s₄, t₄⟩, lexemes₄⟩ ⟨rfl, rfl⟩
  dsimp only
  split
  next s₅ t₅ hlast =>
    obtain ⟨body, rfl⟩ := List.getLast?_eq_some_iff.1 hlast
    rw [List.dropLast_concat]
    intro formula h
    cases hexpr : parseExpression s₅ body with
    | error error =>
      rw [hexpr] at h
      cases h
    | ok expr =>
      rw [hexpr] at h
      cases h
      exact ⟨key, body, s₁, s₂, s₃, s₄, s₅, t₁, t₂, t₃, t₄, t₅, rfl, hexpr, rfl, rfl⟩
  next => apply Gives.error

theorem derivesFormula_of_parseLookup {source : List Char} {lexemes : List (Lexeme α)}
    {formula : Formula α} (h : parseLookup source lexemes = .ok formula) :
    DerivesFormula (.mark .lookup :: lexemes.map (·.token)) formula.key formula.expr := by
  obtain ⟨key, body, s₁, s₂, s₃, s₄, s₅, t₁, t₂, t₃, t₄, t₅, rfl, hexpr, hkey, _⟩ :=
    exists_wrapped_of_parseLookup h
  rw [hkey]
  simpa using DerivesFormula.lookup key (derives_of_parseExpression hexpr)

theorem derivesFormula_of_parse [Amount α] {source : String} {lexemes : List (Lexeme α)}
    {formula : Formula α} (hscan : scan 0 source.toList = .ok lexemes)
    (h : parse source = .ok formula) :
    DerivesFormula (lexemes.map (·.token)) formula.key formula.expr := by
  unfold parse at h
  simp only [hscan, ok_bind] at h
  split at h
  next => exact derivesFormula_of_parseLookup h
  next =>
    cases hexpr : parseExpression (Text.byteLength source.toList) lexemes with
    | error error =>
      rw [hexpr] at h
      cases h
    | ok expr =>
      rw [hexpr] at h
      cases h
      exact .bare (derives_of_parseExpression hexpr)

end Formula

end Tariff
