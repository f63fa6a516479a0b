import Tariff.Proofs.Formula.RoundTrip

/-!
This module contains the proof that the body of a formula is a formula of its own. A closing brace
ends a token just as the end of the text does, so the body is read as the same tokens when it stands
alone.
-/

namespace Tariff.Formula

theorem numberLength_append_rightBrace (seenPoint : Bool) (cs : List Char) :
    numberLength seenPoint (cs ++ ['\x7d']) = numberLength seenPoint cs := by
  induction cs generalizing seenPoint with
  | nil => cases seenPoint <;> rfl
  | cons c cs ih => simp only [List.cons_append, numberLength, ih]

theorem nameLength_append_rightBrace (cs : List Char) :
    nameLength (cs ++ ['\x7d']) = nameLength cs := by
  unfold nameLength
  induction cs with
  | nil => rfl
  | cons c cs ih =>
    rw [List.cons_append, List.takeWhile_cons, List.takeWhile_cons]
    split
    next => simp only [List.length_cons, ih]
    next => rfl

theorem numberLength_le_length (seenPoint : Bool) (cs : List Char) :
    numberLength seenPoint cs ≤ cs.length := by
  fun_induction numberLength seenPoint cs with
  | case1 => apply Nat.le_refl
  | case2 | case3 =>
    simp only [List.length_cons]
    omega
  | case4 => apply Nat.zero_le

theorem nameLength_le_length (cs : List Char) : nameLength cs ≤ cs.length := by
  unfold nameLength
  apply List.Sublist.length_le
  apply List.takeWhile_sublist

theorem pairToken?_rightBrace {α : Type} (c : Char) :
    pairToken? (α := α) c '\x7d' = none := by
  unfold pairToken?
  split
  all_goals first
    | rfl
    | simp_all

variable {α : Type} [Amount α]

theorem token_append_rightBrace (c : Char) (rest : List Char) :
    token (α := α) c (rest ++ ['\x7d']) = token c rest := by
  have hdigit : (rest ++ ['\x7d']).head?.any Char.isDigit = rest.head?.any Char.isDigit := by
    cases rest <;> rfl
  have hpair : (rest ++ ['\x7d']).head?.bind (pairToken? (α := α) c) =
      rest.head?.bind (pairToken? c) := by
    cases rest with
    | nil => exact pairToken?_rightBrace c
    | cons d rest => rfl
  unfold token signsToken
  dsimp only
  rw [hdigit, hpair, numberLength_append_rightBrace, nameLength_append_rightBrace,
    List.take_append_of_le_length (numberLength_le_length _ rest),
    List.take_append_of_le_length (nameLength_le_length rest)]

theorem Lexes.more_le_length {c : Char} {rest : List Char} {t : Token α} {more : Nat}
    (h : Lexes c rest t more) : more ≤ rest.length := by
  cases h with
  | number => apply numberLength_le_length
  | sigil | word => apply nameLength_le_length
  | pair hd =>
    obtain ⟨others, rfl⟩ := List.head?_eq_some_iff.1 hd
    simp
  | sign => apply Nat.zero_le

namespace Scans

theorem of_append_rightBrace {offset stop : Nat} {text : List Char} {lexemes : List (Lexeme α)}
    (h : Scans offset (text ++ ['\x7d'])
      (lexemes ++ [⟨.mark .rightBrace, offset + text.length, stop⟩])) :
    Scans offset text lexemes := by
  generalize hcs : text ++ ['\x7d'] = cs at h
  generalize hall : lexemes ++ [⟨.mark .rightBrace, offset + text.length, stop⟩] = all at h
  induction h generalizing text lexemes with
  | nil => simp at hcs
  | @blank offset c rest others hc hrest ih =>
    cases text with
    | nil =>
      cases hcs
      cases hc
    | cons d text =>
      rw [List.cons_append, List.cons.injEq] at hcs
      obtain ⟨rfl, rfl⟩ := hcs
      refine .blank hc (ih rfl ?_)
      rw [← hall, List.length_cons, Nat.add_assoc, Nat.add_comm 1]
  | @lexeme offset c rest t more others hc ht hrest ih =>
    cases text with
    | nil =>
      cases hcs
      rw [List.drop_nil] at hrest
      cases hrest
      cases lexemes with
      | nil => exact .nil offset
      | cons first lexemes => simp at hall
    | cons d text =>
      rw [List.cons_append, List.cons.injEq] at hcs
      obtain ⟨rfl, rfl⟩ := hcs
      rw [token_append_rightBrace] at ht
      have hmore := (lexes_of_token ht).more_le_length
      cases lexemes with
      | nil =>
        -- The only lexeme left would be the brace, but it begins further to the right.
        have hstart := congrArg Lexeme.start (List.cons.inj hall).1
        simp only [List.length_cons] at hstart
        omega
      | cons first lexemes =>
        rw [List.cons_append, List.cons.injEq] at hall
        obtain ⟨rfl, rfl⟩ := hall
        refine .lexeme hc ht (ih ?_ ?_)
        · rw [List.drop_append_of_le_length hmore]
        · rw [List.length_drop, List.length_cons]
          congr 3
          omega

end Scans

theorem parse_eq_ok_of_scans {source : String} {lexemes : List (Lexeme α)}
    (hscan : Scans 0 source.toList lexemes) {expr : Expr α}
    (hexpr : parseExpression (Text.byteLength source.toList) lexemes = .ok expr) :
    parse source = .ok { key := none, body := source, expr } := by
  have hlookup := (derives_of_parseExpression hexpr).lookup_not_mem
  unfold parse
  dsimp only
  rw [scan_eq_ok_iff.2 hscan, ok_bind]
  split
  next => simp at hlookup
  next =>
    rw [hexpr]
    rfl

theorem parse_body {source : String} {formula : Formula α} (h : parse source = .ok formula) :
    parse formula.body = .ok { key := none, body := formula.body, expr := formula.expr } := by
  rcases parse_eq_ok_cases h with ⟨hkey, hbody⟩ | ⟨first, lexemes, hscan, hlookup⟩
  · rw [hbody, h]
    cases formula
    simp_all
  · obtain ⟨key, text, hformula, _, hbody⟩ := exists_body_of_parseLookup hscan hlookup
    obtain ⟨lexemes, hlexemes, hexpr⟩ := hbody 0
    rw [congrArg Formula.body hformula]
    apply parse_eq_ok_of_scans
    · rw [String.toList_ofList]
      exact hlexemes.of_append_rightBrace
    · apply hexpr

/--
A formula whose body begins with a blank and ends with a number that goes on for as long as the text
allows.
-/
def tightLookup : String :=
  "lookup($if){ if $or<2 then .5 else max(x_1,1)*1_0.}"

theorem parse_body_tightLookup :
    ∃ formula : Formula Float, parse tightLookup = .ok formula ∧ formula.key = some "if" ∧
      (formula.expr ==
        .choose (.binary .lt (.var "or") (.number 2)) (.number 0.5)
          (.binary .mul (.call .max [.var "x_1", .number 1]) (.number 10))) = true ∧
      parse " if $or<2 then .5 else max(x_1,1)*1_0." = .ok { formula with key := none } := by
  obtain ⟨formula, hparse, h⟩ := exists_ok_of_any
    (p := fun f => f.key == some "if" && f.body == " if $or<2 then .5 else max(x_1,1)*1_0." &&
      f.expr == .choose (.binary .lt (.var "or") (.number 2)) (.number 0.5)
        (.binary .mul (.call .max [.var "x_1", .number 1]) (.number 10)))
    (x := (parse tightLookup : Except (ParseError Float) _)) (by decide +kernel)
  simp only [Bool.and_eq_true] at h
  obtain ⟨⟨hkey, hbody⟩, hexpr⟩ := h
  have hreparse := parse_body hparse
  rw [beq_iff_eq.1 hbody] at hreparse
  refine ⟨formula, hparse, beq_iff_eq.1 hkey, hexpr, ?_⟩
  rw [hreparse, ← beq_iff_eq.1 hbody]

end Tariff.Formula
