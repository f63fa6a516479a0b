import Tariff.Proofs.Formula.Lexer
import Tariff.Proofs.Formula.Places

/-!
This module contains the round trip of formulas through their text: which formulas are parsed back
from what they are written as.
-/

namespace Tariff

namespace Text

variable {cs : List Char}

theorem dropBytes_eq_drop (h : ∀ c ∈ cs, c.utf8Size = 1) (count : Nat) :
    dropBytes count cs = cs.drop count := by
  fun_induction dropBytes count cs with
  | case1 => rfl
  | case2 => simp
  | case3 count c cs hcount ih =>
    rw [ih fun d hd => h d (List.mem_cons_of_mem c hd), h c List.mem_cons_self]
    obtain ⟨count, rfl⟩ := Nat.exists_eq_succ_of_ne_zero hcount
    rfl

theorem takeBytes_eq_take (h : ∀ c ∈ cs, c.utf8Size = 1) (count : Nat) :
    takeBytes count cs = cs.take count := by
  fun_induction takeBytes count cs with
  | case1 => rfl
  | case2 => simp
  | case3 count c cs hcount ih =>
    rw [ih fun d hd => h d (List.mem_cons_of_mem c hd), h c List.mem_cons_self]
    obtain ⟨count, rfl⟩ := Nat.exists_eq_succ_of_ne_zero hcount
    rfl

theorem slice_eq_of_drop (h : ∀ c ∈ cs, c.utf8Size = 1) {start : Nat} {text rest : List Char}
    (hdrop : cs.drop start = text ++ rest) : slice cs start (start + text.length) = text := by
  unfold slice
  rw [dropBytes_eq_drop h, hdrop, takeBytes_eq_take, Nat.add_sub_cancel_left, List.take_left]
  intro c hc
  rw [← hdrop] at hc
  exact h c (List.mem_of_mem_drop hc)

end Text

namespace Formula

variable {α : Type}

def reservedWords : List String :=
  ["lookup", "if", "then", "else", "and", "or", "not"]

theorem wordToken_eq_name_iff {word : String} :
    wordToken (α := α) word = .name word ↔ word ∉ reservedWords := by
  unfold wordToken reservedWords
  split
  all_goals simp_all

/--
Whether a name can be written without a sigil.
-/
def isPlain (name : String) : Bool :=
  name.toList.head?.all (!·.isDigit) && !reservedWords.contains name

theorem toList_render_lookup (key : String) (text : List Char) (expr : Expr α) :
    (Formula.mk (some key) (.ofList text) expr).render.toList =
      "lookup(".toList ++ (key.toList ++ (')' :: '\x7b' :: (text ++ ['\x7d']))) := by
  simp [render]

variable [Amount α] {c : Char} {rest : List Char} {key : String}

theorem Lexes.isPlain {more : Nat} (h : Lexes (α := α) c rest (.name key) more)
    (hc : isNameChar c = true) : isPlain key = true := by
  rcases h.name_cases with ⟨rfl | rfl, _⟩ | ⟨halpha, hkey, hword⟩
  · cases hc
  · cases hc
  · have hreserved := wordToken_eq_name_iff.1 hword
    have hfirst : key.toList.head? = some c := by simp [hkey]
    simp [Formula.isPlain, hfirst, isDigit_eq_false halpha, hreserved]

theorem token_of_isPlain {word : List Char} (hplain : isPlain key = true) (hkey : IsName key)
    (hword : key.toList = c :: word) :
    token (α := α) c (word ++ ')' :: rest) = .ok (.name key, word.length) := by
  simp only [isPlain, hword, List.head?_cons, Option.all_some, Bool.and_eq_true,
    Bool.not_eq_true', List.contains_eq_mem, decide_eq_false_iff_not] at hplain
  have hchars := hkey.chars
  rw [hword] at hchars
  rw [token_word hchars hplain.1 rfl, ← hword, String.ofList_toList,
    wordToken_eq_name_iff.2 hplain.2]

theorem scans_lookup_iff {lexemes : List (Lexeme α)} :
    Scans 0 ("lookup(".toList ++ rest) lexemes ↔ ∃ others,
      lexemes = ⟨.mark .lookup, 0, 6⟩ :: ⟨.mark .leftParen, 6, 7⟩ :: others ∧
        Scans 7 rest others := by
  have hword : token (α := α) 'l' ("ookup".toList ++ '(' :: rest) = .ok (.mark .lookup, 5) :=
    token_word (List.all_eq_true.1 rfl) rfl rfl
  have hparen : token (α := α) '(' rest = .ok (.mark .leftParen, 0) :=
    token_bracket (by decide) rest
  refine (Scans.lexeme_iff (by decide) hword).trans ?_
  constructor
  · rintro ⟨afterWord, rfl, hafterWord⟩
    obtain ⟨others, rfl, hothers⟩ := (Scans.lexeme_iff (by decide) hparen).1 hafterWord
    exact ⟨others, rfl, hothers⟩
  · rintro ⟨others, rfl, hothers⟩
    exact ⟨_, rfl, (Scans.lexeme_iff (by decide) hparen).2 ⟨others, rfl, hothers⟩⟩

theorem scans_wrapper {word : List Char} {others : List (Lexeme α)} (hplain : isPlain key = true)
    (hkey : IsName key) (hword : key.toList = c :: word)
    (hrest : Scans (7 + 1 + word.length + 1 + 1) rest others) :
    Scans 0 ("lookup(".toList ++ (key.toList ++ ')' :: '\x7b' :: rest))
      (⟨.mark .lookup, 0, 6⟩ :: ⟨.mark .leftParen, 6, 7⟩ ::
        ⟨.name key, 7, 7 + 1 + word.length⟩ ::
        ⟨.mark .rightParen, 7 + 1 + word.length, 7 + 1 + word.length + 1⟩ ::
        ⟨.mark .leftBrace, 7 + 1 + word.length + 1, 7 + 1 + word.length + 1 + 1⟩ :: others) := by
  refine scans_lookup_iff.2 ⟨_, rfl, ?_⟩
  have hc : isBlank c = false := isBlank_eq_false (hkey.chars c (by simp [hword]))
  rw [hword, List.cons_append]
  refine .lexeme hc (token_of_isPlain hplain hkey hword) ?_
  rw [List.drop_left]
  refine .lexeme (by decide) (token_bracket (by decide) _) ?_
  exact .lexeme (by decide) (token_bracket (by decide) _) hrest

/--
The text before a closing brace is an expression's, wherever it stands.
-/
def IsBody (text : List Char) (expr : Expr α) : Prop :=
  ∀ offset, ∃ lexemes : List (Lexeme α),
    Scans offset (text ++ ['\x7d']) (lexemes ++
      [⟨.mark .rightBrace, offset + text.length, offset + text.length + 1⟩]) ∧
    ∀ stop, parseExpression stop lexemes = .ok expr

theorem exists_body_of_parseLookup {source : List Char} {first : Lexeme α}
    {lexemes : List (Lexeme α)} {formula : Formula α} (hscan : Scans 0 source (first :: lexemes))
    (h : parseLookup source lexemes = .ok formula) :
    ∃ key text, formula = ⟨some key, .ofList text, formula.expr⟩ ∧
      IsName key ∧ IsBody text formula.expr := by
  obtain ⟨key, body, s₁, s₂, s₃, s₄, s₅, t₁, t₂, t₃, t₄, t₅, rfl, hexpr, hkey, hbody⟩ :=
    exists_wrapped_of_parseLookup h
  -- The body is cut out after the opening brace and before the closing one.
  have hopening : Scans t₄ (source.drop t₄) (body ++ [⟨.mark .rightBrace, s₅, t₅⟩]) :=
    (show Scans 0 source ([_, _, _, _] ++ ⟨.mark .leftBrace, s₄, t₄⟩ :: _) from hscan).after.2
  obtain ⟨text, rest, hdrop, rfl, hscans⟩ := hopening.upto_rightBrace
  have hslice : Text.slice source t₄ (t₄ + text.length) = text :=
    Text.slice_eq_of_drop (fun c hc => hscan.utf8Size hc) hdrop
  refine ⟨key, text, ?_, hscan.isName (.tail _ (.tail _ (.head _))), fun offset => ?_⟩
  · rw [hslice] at hbody
    cases formula
    simp_all
  · obtain ⟨lexemes', hlexemes', htokens⟩ := hscans offset
    exact ⟨lexemes', hlexemes', fun stop => parseExpression_eq_ok_of_tokens htokens.symm hexpr⟩

theorem exists_scan_of_parse {source : String} {formula : Formula α}
    (h : parse source = .ok formula) :
    ∃ lexemes : List (Lexeme α), scan 0 source.toList = .ok lexemes := by
  cases hscan : scan (α := α) 0 source.toList with
  | error error =>
    unfold parse at h
    dsimp only at h
    rw [hscan] at h
    cases h
  | ok lexemes => exact ⟨lexemes, rfl⟩

theorem parse_eq_ok_cases {source : String} {formula : Formula α}
    (h : parse source = .ok formula) :
    formula.key = none ∧ formula.body = source ∨ ∃ first lexemes,
      Scans 0 source.toList (first :: lexemes) ∧
        parseLookup source.toList lexemes = .ok formula := by
  obtain ⟨lexemes, hscan⟩ := exists_scan_of_parse h
  unfold parse at h
  dsimp only at h
  rw [hscan, ok_bind] at h
  split at h
  next => exact .inr ⟨_, _, scan_eq_ok_iff.1 hscan, h⟩
  next =>
    cases hexpr : parseExpression (Text.byteLength source.toList) lexemes with
    | error error =>
      rw [hexpr] at h
      cases h
    | ok expr =>
      rw [hexpr] at h
      cases h
      exact .inl ⟨rfl, rfl⟩

theorem parse_render_of_isPlain {text : List Char} {expr : Expr α} (hplain : isPlain key = true)
    (hkey : IsName key) (hbody : IsBody text expr) :
    parse (Formula.mk (some key) (.ofList text) expr).render =
      .ok ⟨some key, .ofList text, expr⟩ := by
  obtain ⟨c, word, hword⟩ := List.exists_cons_of_ne_nil hkey.ne_nil
  obtain ⟨lexemes, hlexemes, hexpr⟩ := hbody (7 + 1 + word.length + 1 + 1)
  have hscan := scans_wrapper hplain hkey hword hlexemes
  rw [← toList_render_lookup key text expr] at hscan
  have hopening : ("lookup(".toList ++ key.toList ++ [')', '\x7b']).length =
      7 + 1 + word.length + 1 + 1 := by
    simp [hword]
    omega
  have hrender : (Formula.mk (some key) (.ofList text) expr).render.toList =
      "lookup(".toList ++ key.toList ++ [')', '\x7b'] ++ (text ++ ['\x7d']) := by
    simp [toList_render_lookup]
  have hslice : Text.slice (Formula.mk (some key) (.ofList text) expr).render.toList
      (7 + 1 + word.length + 1 + 1) (7 + 1 + word.length + 1 + 1 + text.length) = text :=
    Text.slice_eq_of_drop (fun c hc => hscan.utf8Size hc) (hrender ▸ List.drop_left' hopening)
  unfold parse
  dsimp only
  rw [scan_eq_ok_iff.2 hscan, ok_bind]
  dsimp only
  rw [parseLookup_wrapped, hexpr, hslice]
  rfl

theorem isPlain_of_parse_render {text : List Char} {expr : Expr α} {formula : Formula α}
    (hkey : IsName key)
    (h : parse (Formula.mk (some key) (.ofList text) expr).render = .ok formula)
    (hformula : formula.key = some key) : isPlain key = true := by
  obtain ⟨lexemes, hscan⟩ := exists_scan_of_parse h
  have hderives := derivesFormula_of_parse hscan h
  have hscans := scan_eq_ok_iff.1 hscan
  rw [hformula] at hderives
  rw [toList_render_lookup] at hscans
  obtain ⟨others, rfl, hothers⟩ := scans_lookup_iff.1 hscans
  obtain ⟨c, word, hword⟩ := List.exists_cons_of_ne_nil hkey.ne_nil
  have hc : isNameChar c = true := hkey.chars c (by simp [hword])
  rw [hword, List.cons_append] at hothers
  -- The third lexeme begins with a character of the key and, by the grammar, it is the key.
  cases hothers with
  | blank hblank => simp [isBlank_eq_false hc] at hblank
  | lexeme _ htoken _ =>
    generalize htokens : List.map _ _ = tokens at hderives
    cases hderives with
    | lookup _ hexpr =>
      simp only [List.map_cons, List.cons_append, List.cons.injEq, true_and] at htokens
      obtain ⟨rfl, _⟩ := htokens
      exact (lexes_of_token htoken).isPlain hc

theorem parse_render_eq_ok_iff {source : String} {formula : Formula α}
    (h : parse source = .ok formula) :
    parse formula.render = .ok formula ↔ ∀ key, formula.key = some key → isPlain key = true := by
  rcases parse_eq_ok_cases h with ⟨hkey, hbody⟩ | ⟨first, lexemes, hscan, hlookup⟩
  · have hrender : formula.render = source := by simp [render, hkey, hbody]
    simp [hrender, h, hkey]
  · obtain ⟨key, text, hformula, hkey, hbody⟩ := exists_body_of_parseLookup hscan hlookup
    generalize formula.expr = expr at *
    subst hformula
    simp only [Option.some.injEq, forall_eq']
    constructor
    · intro hparse
      exact isPlain_of_parse_render hkey hparse rfl
    · intro hplain
      exact parse_render_of_isPlain hplain hkey hbody

def spacedLookup : String :=
  "lookup ( @n_1 )  \x7b max(n_1, $if) * 1_0.5\t\x7d "

theorem parse_render_spacedLookup :
    ∃ formula : Formula Float, parse spacedLookup = .ok formula ∧
      formula.render = "lookup(n_1)\x7b max(n_1, $if) * 1_0.5\t\x7d" ∧
      parse formula.render = .ok formula := by
  obtain ⟨formula, hparse, h⟩ := exists_ok_of_any
    (p := fun f => f.key == some "n_1" && f.render == "lookup(n_1)\x7b max(n_1, $if) * 1_0.5\t\x7d")
    (x := (parse spacedLookup : Except (ParseError Float) _)) (by decide +kernel)
  simp only [Bool.and_eq_true, beq_iff_eq] at h
  refine ⟨formula, hparse, h.2, (parse_render_eq_ok_iff hparse).2 ?_⟩
  intro key hkey
  obtain rfl : "n_1" = key := Option.some.inj (h.1.symm.trans hkey)
  decide

/--
A key that needs its sigil is not parsed back: it is written without one.
-/
theorem parse_render_reservedKey :
    ∃ formula : Formula Float, parse "lookup($if)\x7b1\x7d" = .ok formula ∧
      parse formula.render ≠ .ok formula := by
  obtain ⟨formula, hparse, hrender⟩ := exists_ok_of_any
    (p := (·.render == "lookup(if)\x7b1\x7d"))
    (x := (parse "lookup($if)\x7b1\x7d" : Except (ParseError Float) _)) (by decide +kernel)
  refine ⟨formula, hparse, ?_⟩
  have hrefused : (parse "lookup(if)\x7b1\x7d" : Except (ParseError Float) _).isOk = false := by
    decide +kernel
  intro h
  rw [beq_iff_eq.1 hrender] at h
  rw [h] at hrefused
  cases hrefused

end Formula

end Tariff
