import Mathlib.Data.List.Basic
import Tariff.Formula.Lexer

/-!
This module contains what the lexer makes of a text that is cut: a token depends on its own
characters and on the one after them.
-/

namespace Tariff.Formula

variable {cs cs' : List Char}

theorem numberLength_eq_of_take {seenPoint : Bool}
    (h : cs'.take (numberLength seenPoint cs + 1) = cs.take (numberLength seenPoint cs + 1)) :
    numberLength seenPoint cs' = numberLength seenPoint cs := by
  induction cs generalizing seenPoint cs' with
  | nil =>
    obtain rfl : cs' = [] := by simpa using h
    rfl
  | cons c cs ih =>
    obtain _ | ⟨c', cs'⟩ := cs'
    · simp at h
    simp only [List.take_succ_cons, List.cons.injEq] at h
    obtain ⟨rfl, h⟩ := h
    simp only [numberLength] at h ⊢
    split
    next hdigit =>
      rw [if_pos hdigit] at h
      rw [ih h]
    next hdigit =>
      split
      next hpoint =>
        rw [if_neg hdigit, if_pos hpoint] at h
        rw [ih h]
      next => rfl

theorem nameLength_eq_of_take (h : cs'.take (nameLength cs + 1) = cs.take (nameLength cs + 1)) :
    nameLength cs' = nameLength cs := by
  induction cs generalizing cs' with
  | nil =>
    obtain rfl : cs' = [] := by simpa using h
    rfl
  | cons c cs ih =>
    obtain _ | ⟨c', cs'⟩ := cs'
    · simp at h
    simp only [List.take_succ_cons, List.cons.injEq] at h
    obtain ⟨rfl, h⟩ := h
    simp only [nameLength, List.takeWhile_cons] at *
    split
    next hc =>
      rw [if_pos hc] at h
      exact congrArg Nat.succ (ih h)
    next => rfl

theorem isNameChar_iff {c : Char} :
    isNameChar c = true ↔ (c.isAlpha = true ∨ c = '_') ∨ c.isDigit = true := by
  simp only [isNameChar, Char.isAlphanum, Bool.or_eq_true, beq_iff_eq]
  tauto

theorem val_of_isAlpha {c : Char} (h : c.isAlpha = true) : 65 ≤ c.val ∧ c.val ≤ 122 := by
  rcases Bool.or_eq_true_iff.1 h with hupper | hlower
  · have hc : 65 ≤ c.val ∧ c.val ≤ 90 := of_decide_eq_true hupper
    exact ⟨hc.1, UInt32.le_trans hc.2 (by decide)⟩
  · obtain ⟨hlow, hhigh⟩ := Bool.and_eq_true_iff.1 hlower
    have hlow : 97 ≤ c.val := of_decide_eq_true hlow
    exact ⟨UInt32.le_trans (by decide) hlow, of_decide_eq_true hhigh⟩

theorem val_of_isDigit {c : Char} (h : c.isDigit = true) : c.val ≤ 57 :=
  of_decide_eq_true (Bool.and_eq_true_iff.1 h).2

theorem isDigit_eq_false {c : Char} (h : c.isAlpha = true ∨ c = '_') : c.isDigit = false := by
  rcases h with h | rfl
  · by_contra hdigit
    have hle := UInt32.le_trans (val_of_isAlpha h).1 (val_of_isDigit (Bool.not_eq_false _ ▸ hdigit))
    exact absurd hle (by decide)
  · rfl

theorem isBlank_eq_false {c : Char} (h : isNameChar c = true) : isBlank c = false := by
  by_contra hblank
  simp only [isBlank, Bool.not_eq_false, Bool.or_eq_true, beq_iff_eq] at hblank
  rcases hblank with (((rfl | rfl) | rfl) | rfl) | rfl <;> cases h

theorem utf8Size_of_isNameChar {c : Char} (h : isNameChar c = true) : c.utf8Size = 1 := by
  rw [Char.utf8Size_eq_one_iff]
  rcases isNameChar_iff.1 h with (halpha | rfl) | hdigit
  · exact UInt32.le_trans (val_of_isAlpha halpha).2 (by decide)
  · decide
  · exact UInt32.le_trans (val_of_isDigit hdigit) (by decide)

theorem take_nameLength (cs : List Char) : cs.take (nameLength cs) = cs.takeWhile isNameChar :=
  (List.prefix_iff_eq_take.1 (List.takeWhile_prefix _)).symm

theorem utf8Size_of_mem_take_nameLength {d : Char} (h : d ∈ cs.take (nameLength cs)) :
    d.utf8Size = 1 := by
  rw [take_nameLength] at h
  exact utf8Size_of_isNameChar (List.all_eq_true.1 List.all_takeWhile d h)

theorem utf8Size_of_mem_take_numberLength {seenPoint : Bool} {d : Char}
    (h : d ∈ cs.take (numberLength seenPoint cs)) : d.utf8Size = 1 := by
  fun_induction numberLength seenPoint cs with
  | case1 => cases h
  | case2 _ c cs hc ih =>
    rcases List.mem_cons.1 h with rfl | h
    · apply utf8Size_of_isNameChar
      rw [isNameChar_iff]
      simp only [Bool.or_eq_true, beq_iff_eq] at hc
      tauto
    · exact ih h
  | case3 _ c cs _ hpoint ih =>
    rcases List.mem_cons.1 h with rfl | h
    · simp only [Bool.and_eq_true, beq_iff_eq] at hpoint
      rw [hpoint.1]
      rfl
    · exact ih h
  | case4 => cases h

section

variable {α : Type} {c d : Char} {t : Token α}

theorem eq_of_wordToken_eq_name {word key : String} (h : wordToken (α := α) word = .name key) :
    word = key := by
  unfold wordToken at h
  split at h
  all_goals cases h
  rfl

theorem exists_operator_of_pairToken? (h : pairToken? c d = some t) :
    ∃ op, t = .operator op := by
  unfold pairToken? at h
  split at h
  all_goals cases h
  all_goals exact ⟨_, rfl⟩

theorem utf8Size_of_signToken? (h : signToken? c = some t) : c.utf8Size = 1 := by
  unfold signToken? at h
  split at h
  all_goals first
    | rfl
    | cases h

theorem utf8Size_of_pairToken? (h : pairToken? c d = some t) :
    c.utf8Size = 1 ∧ d.utf8Size = 1 := by
  unfold pairToken? at h
  split at h
  all_goals first
    | exact ⟨rfl, rfl⟩
    | cases h

end

variable {α : Type} [Amount α] {c : Char} {rest rest' : List Char} {t : Token α} {more : Nat}

/--
The character after a token is the last one that the token depends on.
-/
theorem token_eq_of_take (h : token c rest = .ok (t, more))
    (htake : rest'.take (more + 1) = rest.take (more + 1)) :
    token c rest' = .ok (t, more) := by
  have hhead : rest'.head? = rest.head? := by
    simpa [List.head?_take] using congrArg List.head? htake
  have htext : rest'.take more = rest.take more := by
    simpa [List.take_take] using congrArg (List.take more) htake
  unfold token at *
  rw [hhead]
  split at h
  next hc =>
    rw [if_pos hc]
    dsimp only at *
    cases hvalue : numberToken (α := α) (c :: rest.take (numberLength (c == '.') rest)) with
    | error cause =>
      rw [hvalue] at h
      cases h
    | ok =>
      rw [hvalue] at h
      cases h
      rw [numberLength_eq_of_take htake, htext, hvalue]
      rfl
  next hc =>
    rw [if_neg hc]
    split at h
    next hsigil =>
      rw [if_pos hsigil]
      dsimp only at *
      split at h
      next => cases h
      next hne =>
        cases h
        rw [nameLength_eq_of_take htake, if_neg hne, htext]
    next hsigil =>
      rw [if_neg hsigil]
      split at h
      next hword =>
        rw [if_pos hword]
        dsimp only at *
        cases h
        rw [nameLength_eq_of_take htake, htext]
      next hword =>
        rw [if_neg hword]
        unfold signsToken at *
        rw [hhead]
        exact h

theorem token_word {word : List Char} (hword : ∀ d ∈ c :: word, isNameChar d = true)
    (hc : c.isDigit = false) (hrest : rest.head?.all (!isNameChar ·) = true) :
    token (α := α) c (word ++ rest) = .ok (wordToken (.ofList (c :: word)), word.length) := by
  have hstop : rest.takeWhile isNameChar = [] := by
    cases rest with
    | nil => rfl
    | cons d rest =>
      have hd : isNameChar d = false := by simpa using hrest
      rw [List.takeWhile_cons, hd]
      rfl
  have hlength : nameLength (word ++ rest) = word.length := by
    rw [nameLength, List.takeWhile_append_of_pos fun d hd => hword d (.tail c hd), hstop,
      List.append_nil]
  have halpha : c.isAlpha = true ∨ c = '_' := by
    simpa [hc] using isNameChar_iff.1 (hword c List.mem_cons_self)
  have hsigil : ¬(c = '.' ∨ c = '$' ∨ c = '@') := by
    rintro (rfl | rfl | rfl) <;> simp at halpha
  simp_all [token]

theorem token_bracket {mark : Mark}
    (h : (c, mark) ∈ [('(', Mark.leftParen), (')', .rightParen), ('\x7b', .leftBrace)])
    (rest : List Char) : token (α := α) c rest = .ok (.mark mark, 0) := by
  simp only [List.mem_cons, Prod.mk.injEq, List.not_mem_nil, or_false] at h
  rcases h with ⟨rfl, rfl⟩ | ⟨rfl, rfl⟩ | ⟨rfl, rfl⟩ <;> cases rest <;> rfl

/--
How a token begins, and the rule that ends it.
-/
inductive Lexes (c : Char) (rest : List Char) : Token α → Nat → Prop where
  | number {t : Token α} (hc : c.isDigit = true ∨ c = '.')
    (hvalue : numberToken (c :: rest.take (numberLength (c == '.') rest)) = .ok t) :
    Lexes c rest t (numberLength (c == '.') rest)
  | sigil (hc : c = '$' ∨ c = '@') (hne : nameLength rest ≠ 0) :
    Lexes c rest (.name (.ofList (rest.take (nameLength rest)))) (nameLength rest)
  | word {t : Token α} (hc : c.isAlpha = true ∨ c = '_')
    (ht : wordToken (.ofList (c :: rest.take (nameLength rest))) = t) :
    Lexes c rest t (nameLength rest)
  | pair {d : Char} {t : Token α} (hd : rest.head? = some d) (ht : pairToken? c d = some t) :
    Lexes c rest t 1
  | sign {t : Token α} (ht : signToken? c = some t) : Lexes c rest t 0

theorem lexes_of_token (h : token c rest = .ok (t, more)) : Lexes c rest t more := by
  unfold token at h
  split at h
  next hc =>
    dsimp only at h
    cases hvalue : numberToken (α := α) (c :: rest.take (numberLength (c == '.') rest)) with
    | error cause =>
      rw [hvalue] at h
      cases h
    | ok =>
      rw [hvalue] at h
      cases h
      refine .number ?_ hvalue
      simp only [Bool.or_eq_true, Bool.and_eq_true, beq_iff_eq] at hc
      exact hc.imp_right And.left
  next =>
    split at h
    next hc =>
      dsimp only at h
      split at h
      next => cases h
      next hne =>
        cases h
        exact .sigil (by simpa using hc) (by simpa using hne)
    next =>
      split at h
      next hc =>
        cases h
        exact .word (by simpa using hc) rfl
      next =>
        unfold signsToken at h
        split at h
        next hpair =>
          cases h
          obtain ⟨d, hd, hpair⟩ := Option.bind_eq_some_iff.1 hpair
          exact .pair hd hpair
        next =>
          split at h
          next hsign =>
            cases h
            exact .sign hsign
          next => cases h

theorem exists_number_of_numberToken {text : List Char} (h : numberToken text = .ok t) :
    ∃ value, t = .number value := by
  unfold numberToken at h
  split at h
  next =>
    cases h
    exact ⟨_, rfl⟩
  next => cases h

theorem eq_of_token_rightBrace (h : token (α := α) c rest = .ok (.mark .rightBrace, more)) :
    c = '\x7d' := by
  cases lexes_of_token h with
  | number hc hvalue =>
    obtain ⟨value, hvalue⟩ := exists_number_of_numberToken hvalue
    cases hvalue
  | word hc ht =>
    unfold wordToken at ht
    split at ht
    all_goals cases ht
  | pair hd ht =>
    obtain ⟨op, hop⟩ := exists_operator_of_pairToken? ht
    cases hop
  | sign ht =>
    unfold signToken? at ht
    split at ht
    all_goals first
      | rfl
      | cases ht

theorem Lexes.name_cases {key : String} (h : Lexes (α := α) c rest (.name key) more) :
    (c = '$' ∨ c = '@') ∧ nameLength rest ≠ 0 ∧ key = .ofList (rest.takeWhile isNameChar) ∨
      (c.isAlpha = true ∨ c = '_') ∧ key = .ofList (c :: rest.takeWhile isNameChar) ∧
        wordToken (α := α) key = .name key := by
  cases h with
  | number hc hvalue =>
    obtain ⟨value, hvalue⟩ := exists_number_of_numberToken hvalue
    cases hvalue
  | sigil hc hne => exact .inl ⟨hc, hne, by rw [take_nameLength]⟩
  | word hc ht =>
    rw [take_nameLength] at ht
    obtain rfl := eq_of_wordToken_eq_name ht
    exact .inr ⟨hc, rfl, ht⟩
  | pair hd ht =>
    obtain ⟨op, hop⟩ := exists_operator_of_pairToken? ht
    cases hop
  | sign ht =>
    unfold signToken? at ht
    split at ht
    all_goals cases ht

/--
What the text of a name token is like, whether it had a sigil or not.
-/
structure IsName (name : String) : Prop where
  ne_nil : name.toList ≠ []
  chars : ∀ c ∈ name.toList, isNameChar c = true

theorem Lexes.isName {key : String} (h : Lexes (α := α) c rest (.name key) more) :
    IsName key := by
  rcases h.name_cases with ⟨hc, hne, rfl⟩ | ⟨hc, rfl, hword⟩
  · constructor
    · intro hnil
      rw [String.toList_ofList] at hnil
      simp [nameLength, hnil] at hne
    · rw [String.toList_ofList]
      exact List.all_eq_true.1 List.all_takeWhile
  · constructor
    · simp
    · rw [String.toList_ofList, List.forall_mem_cons]
      exact ⟨isNameChar_iff.2 (.inl hc), List.all_eq_true.1 List.all_takeWhile⟩

theorem Lexes.utf8Size (h : Lexes c rest t more) {d : Char} (hd : d ∈ c :: rest.take more) :
    d.utf8Size = 1 := by
  cases h with
  | number hc hvalue =>
    rcases List.mem_cons.1 hd with rfl | hd
    · rcases hc with hc | rfl
      · exact utf8Size_of_isNameChar (isNameChar_iff.2 (.inr hc))
      · rfl
    · exact utf8Size_of_mem_take_numberLength hd
  | sigil hc hne =>
    rcases List.mem_cons.1 hd with rfl | hd
    · rcases hc with rfl | rfl <;> rfl
    · exact utf8Size_of_mem_take_nameLength hd
  | word hc ht =>
    rcases List.mem_cons.1 hd with rfl | hd
    · exact utf8Size_of_isNameChar (isNameChar_iff.2 (.inl hc))
    · exact utf8Size_of_mem_take_nameLength hd
  | @pair e t he ht =>
    obtain ⟨rest, rfl⟩ := List.head?_eq_some_iff.1 he
    obtain ⟨hc, hd'⟩ := utf8Size_of_pairToken? ht
    simp only [List.take_succ_cons, List.take_zero, List.mem_cons, List.not_mem_nil,
      or_false] at hd
    rcases hd with rfl | rfl
    · exact hc
    · exact hd'
  | sign ht =>
    obtain rfl : d = c := by simpa using hd
    exact utf8Size_of_signToken? ht

/--
The lexemes of a text that stands at a byte offset.
-/
inductive Scans : Nat → List Char → List (Lexeme α) → Prop where
  | nil (offset : Nat) : Scans offset [] []
  | blank {offset : Nat} {c : Char} {rest : List Char} {lexemes : List (Lexeme α)}
    (hc : isBlank c = true) (hrest : Scans (offset + 1) rest lexemes) :
    Scans offset (c :: rest) lexemes
  | lexeme {offset : Nat} {c : Char} {rest : List Char} {t : Token α} {more : Nat}
    {lexemes : List (Lexeme α)} (hc : isBlank c = false) (ht : token c rest = .ok (t, more))
    (hrest : Scans (offset + 1 + more) (rest.drop more) lexemes) :
    Scans offset (c :: rest) (⟨t, offset, offset + 1 + more⟩ :: lexemes)

theorem scan_eq_ok_iff {offset : Nat} {lexemes : List (Lexeme α)} :
    scan offset cs = .ok lexemes ↔ Scans offset cs lexemes := by
  constructor
  · intro h
    fun_induction scan (α := α) offset cs generalizing lexemes with
    | case1 =>
      cases h
      exact .nil _
    | case2 offset c rest hblank ih => exact .blank hblank (ih h)
    | case3 => cases h
    | case4 offset c rest hblank t more htoken stop =>
      rename_i ih
      cases hscan : scan (α := α) stop (rest.drop more) with
      | error error =>
        rw [hscan] at h
        cases h
      | ok lexemes =>
        rw [hscan] at h
        cases h
        exact .lexeme (by simpa using hblank) htoken (ih hscan)
  · intro h
    induction h with
    | nil => rw [scan]
    | blank hc hrest ih => rw [scan, if_pos hc, ih]
    | lexeme hc ht hrest ih =>
      rw [scan, if_neg (by simp [hc])]
      simp only [ht, ih]
      rfl

namespace Scans

theorem utf8Size {offset : Nat} {lexemes : List (Lexeme α)} (h : Scans offset cs lexemes)
    {d : Char} (hd : d ∈ cs) : d.utf8Size = 1 := by
  induction h with
  | nil => cases hd
  | @blank offset c rest lexemes hc hrest ih =>
    rcases List.mem_cons.1 hd with rfl | hd
    · simp only [isBlank, Bool.or_eq_true, beq_iff_eq] at hc
      rcases hc with (((rfl | rfl) | rfl) | rfl) | rfl <;> rfl
    · exact ih hd
  | @lexeme offset c rest t more lexemes hc ht hrest ih =>
    rw [← List.take_append_drop more rest, ← List.cons_append] at hd
    rcases List.mem_append.1 hd with hd | hd
    · exact (lexes_of_token ht).utf8Size hd
    · exact ih hd

theorem isName {offset : Nat} {lexemes : List (Lexeme α)} (h : Scans offset cs lexemes)
    {key : String} {start stop : Nat} (hkey : ⟨.name key, start, stop⟩ ∈ lexemes) :
    IsName key := by
  induction h with
  | nil => cases hkey
  | blank hc hrest ih => exact ih hkey
  | lexeme hc ht hrest ih =>
    cases hkey with
    | head => exact (lexes_of_token ht).isName
    | tail _ hkey => exact ih hkey

theorem lexeme_iff {offset : Nat} {lexemes : List (Lexeme α)} (hc : isBlank c = false)
    (ht : token c rest = .ok (t, more)) :
    Scans offset (c :: rest) lexemes ↔ ∃ others,
      lexemes = ⟨t, offset, offset + 1 + more⟩ :: others ∧
        Scans (offset + 1 + more) (rest.drop more) others := by
  constructor
  · intro h
    cases h with
    | blank hblank => simp [hc] at hblank
    | lexeme _ ht' hrest =>
      rw [ht] at ht'
      cases ht'
      exact ⟨_, rfl, hrest⟩
  · rintro ⟨others, rfl, hrest⟩
    exact .lexeme hc ht hrest

/--
A token may be put before another text that begins with the same character.
-/
theorem lexeme_of_head? {offset : Nat} {ys : List Char} {others : List (Lexeme α)}
    (hc : isBlank c = false) (ht : token c rest = .ok (t, more)) (hmore : more ≤ rest.length)
    (hhead : ys.head? = (rest.drop more).head?) (hys : Scans (offset + 1 + more) ys others) :
    Scans offset (c :: (rest.take more ++ ys)) (⟨t, offset, offset + 1 + more⟩ :: others) := by
  have hlength : (rest.take more).length = more := List.length_take_of_le hmore
  have htake : (rest.take more ++ ys).take (more + 1) = rest.take (more + 1) := by
    rw [List.take_add, List.take_add, List.take_left' hlength, List.drop_left' hlength,
      List.take_one, List.take_one, hhead]
  refine .lexeme hc (token_eq_of_take ht htake) ?_
  rw [List.drop_left' hlength]
  exact hys

theorem after {offset : Nat} {lexemes after : List (Lexeme α)} {lexeme : Lexeme α}
    (h : Scans offset cs (lexemes ++ lexeme :: after)) :
    offset ≤ lexeme.stop ∧ Scans lexeme.stop (cs.drop (lexeme.stop - offset)) after := by
  generalize hall : lexemes ++ lexeme :: after = all at h
  induction h generalizing lexemes with
  | nil => simp at hall
  | @blank offset c rest others hc hrest ih =>
    obtain ⟨hle, hafter⟩ := ih hall
    refine ⟨by omega, ?_⟩
    rwa [show lexeme.stop - offset = lexeme.stop - (offset + 1) + 1 by omega,
      List.drop_succ_cons]
  | @lexeme offset c rest t more others hc ht hrest ih =>
    cases lexemes with
    | nil =>
      obtain ⟨rfl, rfl⟩ := List.cons.inj hall
      refine ⟨by simp; omega, ?_⟩
      rwa [show offset + 1 + more - offset = more + 1 by omega, List.drop_succ_cons]
    | cons first lexemes =>
      obtain ⟨rfl, hothers⟩ := List.cons.inj hall
      obtain ⟨hle, hafter⟩ := ih hothers
      refine ⟨by omega, ?_⟩
      rw [List.drop_drop] at hafter
      rwa [show lexeme.stop - offset = more + (lexeme.stop - (offset + 1 + more)) + 1 by omega,
        List.drop_succ_cons]

/--
The text up to a closing brace scans to the lexemes up to that brace, wherever it stands.
-/
theorem upto_rightBrace {offset start stop : Nat} {lexemes : List (Lexeme α)}
    (h : Scans offset cs (lexemes ++ [⟨.mark .rightBrace, start, stop⟩])) :
    ∃ text rest, cs = text ++ '\x7d' :: rest ∧ start = offset + text.length ∧
      ∀ offset', ∃ lexemes',
        Scans offset' (text ++ ['\x7d']) (lexemes' ++
          [⟨.mark .rightBrace, offset' + text.length, offset' + text.length + 1⟩]) ∧
        lexemes'.map (·.token) = lexemes.map (·.token) := by
  generalize hall : lexemes ++ [⟨.mark .rightBrace, start, stop⟩] = all at h
  induction h generalizing lexemes with
  | nil => simp at hall
  | @blank offset c rest lexemes hc hrest ih =>
    obtain ⟨text, after, rfl, rfl, hscans⟩ := ih hall
    refine ⟨c :: text, after, rfl, by simp; omega, fun offset' => ?_⟩
    obtain ⟨lexemes', hlexemes', htokens⟩ := hscans (offset' + 1)
    refine ⟨lexemes', .blank hc ?_, htokens⟩
    rwa [List.length_cons, show offset' + (text.length + 1) = offset' + 1 + text.length by omega]
  | @lexeme offset c rest t more others hc ht hrest ih =>
    cases lexemes with
    | nil =>
      obtain ⟨⟨rfl, rfl, rfl⟩, rfl⟩ := List.cons.inj hall
      obtain rfl := eq_of_token_rightBrace ht
      refine ⟨[], rest, rfl, rfl, fun offset' => ⟨[], ?_, rfl⟩⟩
      have htoken : token (α := α) '\x7d' [] = .ok (.mark .rightBrace, 0) := rfl
      exact .lexeme (by decide) htoken (.nil _)
    | cons first lexemes =>
      obtain ⟨rfl, hothers⟩ := List.cons.inj hall
      obtain ⟨text, after, hdrop, rfl, hscans⟩ := ih hothers
      have hmore : more ≤ rest.length := by
        have hlength := congrArg List.length hdrop
        simp only [List.length_drop, List.length_append, List.length_cons] at hlength
        omega
      have hlength : (c :: (rest.take more ++ text)).length = 1 + more + text.length := by
        rw [List.length_cons, List.length_append, List.length_take_of_le hmore]
        omega
      refine ⟨c :: (rest.take more ++ text), after, ?_, by omega, fun offset' => ?_⟩
      · rw [List.cons_append, List.append_assoc, ← hdrop, List.take_append_drop]
      · obtain ⟨lexemes', hlexemes', htokens⟩ := hscans (offset' + 1 + more)
        refine ⟨⟨t, offset', offset' + 1 + more⟩ :: lexemes', ?_, by simp [htokens]⟩
        rw [show offset' + (c :: (rest.take more ++ text)).length =
          offset' + 1 + more + text.length by omega, List.cons_append, List.append_assoc]
        -- The cut leaves the brace, so the next character is the same as before.
        refine lexeme_of_head? hc ht hmore ?_ hlexemes'
        rw [hdrop]
        cases text <;> rfl

end Scans

end Tariff.Formula
