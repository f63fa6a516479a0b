import Tariff.Proofs.Formula.Body
import Tariff.Proofs.Text.Offsets

/-!
This module contains the lexer as it runs on the bytes of a text, where every byte is read by its
offset and every piece of the text is cut out between two offsets. It never runs into a trap and has
the outcome of the lexer on characters.
-/

namespace Tariff.Formula

open Text

def numberEnd (source : String) (seenPoint : Bool) (offset : Nat) : Option Nat :=
  if offset < source.utf8ByteSize then do
    let c ← byte? source offset
    if c.isDigit || c == '_' then
      numberEnd source seenPoint (offset + 1)
    else if c == '.' && !seenPoint then
      numberEnd source true (offset + 1)
    else
      some offset
  else
    some offset
termination_by source.utf8ByteSize - offset

def nameEnd (source : String) (offset : Nat) : Option Nat :=
  if offset < source.utf8ByteSize then do
    let c ← byte? source offset
    if isNameChar c then
      nameEnd source (offset + 1)
    else
      some offset
  else
    some offset
termination_by source.utf8ByteSize - offset

def literal? (source : String) (start : Nat) : Option (String × Nat) := do
  let stop ← numberEnd source false start
  let text ← cut? source start stop
  return (text, stop)

section

variable {α : Type} [Amount α]

def numberAt (source : String) (start : Nat) : Checked (ParseCause α) (Token α × Nat) := do
  let (text, stop) ← literal? source start
  let token ← Checked.safe (numberToken text.toList)
  return (token, stop)

def nameAt (source : String) (start : Nat) (c : Char) : Checked (ParseCause α) (Token α × Nat) := do
  let nameStart := if c == '$' || c == '@' then start + 1 else start
  let stop ← nameEnd source nameStart
  if stop = nameStart then
    throw (.loneSigil c)
  else
    let word ← cut? source nameStart stop
    return (if start < nameStart then .name word else wordToken word, stop)

def signsAt (source : String) (start : Nat) (c : Char) :
    Checked (ParseCause α) (Token α × Nat) :=
  match (byte? source (start + 1)).bind (pairToken? c) with
  | some token => return (token, start + 2)
  | none =>
    match signToken? c with
    | some token => return (token, start + 1)
    | none => do
      let text ← cut? source start source.utf8ByteSize
      throw (.strayCharacter (text.toList.headD '?'))

def tokenAt (source : String) (start : Nat) (c : Char) : Checked (ParseCause α) (Token α × Nat) :=
  if c.isDigit || (c == '.' && (byte? source (start + 1)).any Char.isDigit) then
    numberAt source start
  else if c == '$' || c == '@' || c.isAlpha || c == '_' then
    nameAt source start c
  else
    signsAt source start c

/--
Turn the text from an offset on into its lexemes. To stay at the same offset is a trap, too.
-/
def scanAt (source : String) (offset : Nat) : Checked (ParseError α) (List (Lexeme α)) :=
  if offset < source.utf8ByteSize then do
    let c ← byte? source offset
    if isBlank c then
      scanAt source (offset + 1)
    else
      let (token, stop) ← (tokenAt source offset c).adapt ({ cause := ·, offset })
      if offset < stop then
        let lexemes ← scanAt source stop
        return { token, start := offset, stop } :: lexemes
      else
        Checked.trap
  else
    return []
termination_by source.utf8ByteSize - offset

end

section

variable {source : String} {offset : Nat} {rest : List Char}

theorem isDigit_wide {c : Char} (h : 128 ≤ c.val) : c.isDigit = false := by
  by_contra hdigit
  have hle := UInt32.le_trans h (val_of_isDigit (Bool.not_eq_false _ ▸ hdigit))
  exact absurd hle (by decide)

theorem isAlpha_wide {c : Char} (h : 128 ≤ c.val) : c.isAlpha = false := by
  by_contra halpha
  have hle := UInt32.le_trans h (val_of_isAlpha (Bool.not_eq_false _ ▸ halpha)).2
  exact absurd hle (by decide)

theorem beq_wide {c : Char} (h : 128 ≤ c.val) {d : Char} (hd : d.val < 128) :
    (c == d) = false := by
  rw [beq_eq_false_iff_ne]
  rintro rfl
  exact absurd (UInt32.lt_of_lt_of_le hd h) (UInt32.lt_irrefl _)

theorem isNameChar_wide {c : Char} (h : 128 ≤ c.val) : isNameChar c = false := by
  rw [isNameChar, Char.isAlphanum, isAlpha_wide h, isDigit_wide h, beq_wide h (by decide)]
  rfl

theorem isBlank_wide {c : Char} (h : 128 ≤ c.val) : isBlank c = false := by
  simp only [isBlank]
  iterate 5 rw [beq_wide h (by decide)]
  rfl

theorem utf8Size_ne_one {c : Char} (h : 128 ≤ c.val) : c.utf8Size ≠ 1 := by
  rw [Ne, Char.utf8Size_eq_one_iff, UInt32.not_le]
  exact UInt32.lt_of_lt_of_le (by decide) h

theorem pairToken?_wide {α : Type} {c d : Char} (h : 128 ≤ c.val ∨ 128 ≤ d.val) :
    pairToken? (α := α) c d = none := by
  by_contra hsome
  obtain ⟨t, ht⟩ := Option.ne_none_iff_exists'.1 hsome
  obtain ⟨hc, hd⟩ := utf8Size_of_pairToken? ht
  exact h.elim (utf8Size_ne_one · hc) (utf8Size_ne_one · hd)

theorem signToken?_wide {α : Type} {c : Char} (h : 128 ≤ c.val) : signToken? (α := α) c = none := by
  by_contra hsome
  obtain ⟨t, ht⟩ := Option.ne_none_iff_exists'.1 hsome
  exact utf8Size_ne_one h (utf8Size_of_signToken? ht)

theorem numberEnd_eq (h : From source offset rest) (seenPoint : Bool) :
    numberEnd source seenPoint offset = some (offset + numberLength seenPoint rest) := by
  induction rest generalizing offset seenPoint with
  | nil =>
    rw [numberEnd, if_neg (by simp [h.utf8ByteSize_eq, byteLength])]
    rfl
  | cons c rest ih =>
    obtain ⟨byte, hbyte, hbegins⟩ := h.byte?_cons
    rw [numberEnd, if_pos h.lt_utf8ByteSize, hbyte]
    dsimp only [bind, Option.bind]
    cases hbegins with
    | ascii hc =>
      have hrest (seenPoint : Bool) : numberEnd source seenPoint (offset + 1) =
          some (offset + (numberLength seenPoint rest + 1)) := by
        rw [ih (h.tail hc), Nat.add_right_comm, Nat.add_assoc]
      rw [hrest, hrest, numberLength]
      split
      next => rfl
      next =>
        split
        next => rfl
        next => rfl
    | wide hwide hc =>
      rw [numberLength, isDigit_wide hwide, isDigit_wide hc, beq_wide hwide (by decide),
        beq_wide hc (by decide), beq_wide hwide (by decide), beq_wide hc (by decide)]
      rfl

theorem ne_of_isDigit {c d : Char} (hc : c.isDigit = true) (hd : d.isDigit = false) : c ≠ d := by
  rintro rfl
  rw [hc] at hd
  cases hd

theorem literal?_eq {c : Char} (h : From source offset (c :: rest))
    (hc : c.isDigit = true ∨ c = '.') :
    literal? source offset = some (.ofList (c :: rest.take (numberLength (c == '.') rest)),
      offset + 1 + numberLength (c == '.') rest) := by
  have hlength : numberLength false (c :: rest) = numberLength (c == '.') rest + 1 := by
    rw [numberLength]
    rcases hc with hc | rfl
    · have hpoint : (c == '.') = false := beq_eq_false_iff_ne.2 (ne_of_isDigit hc rfl)
      rw [hc, hpoint]
      rfl
    · rfl
  have hcut := h.cut?_take _ (numberLength_le_length false (c :: rest))
    fun d => utf8Size_of_mem_take_numberLength
  unfold literal?
  rw [numberEnd_eq h]
  dsimp only [bind, Option.bind]
  rw [hcut, hlength, List.take_succ_cons, Nat.add_right_comm, Nat.add_assoc]
  rfl

theorem nameEnd_eq (h : From source offset rest) :
    nameEnd source offset = some (offset + nameLength rest) := by
  induction rest generalizing offset with
  | nil =>
    rw [nameEnd, if_neg (by simp [h.utf8ByteSize_eq, byteLength])]
    rfl
  | cons c rest ih =>
    obtain ⟨byte, hbyte, hbegins⟩ := h.byte?_cons
    rw [nameEnd, if_pos h.lt_utf8ByteSize, hbyte]
    dsimp only [bind, Option.bind]
    rw [hbegins.congr fun _ => isNameChar_wide, nameLength, List.takeWhile_cons]
    split
    next hc =>
      rw [ih (h.tail (utf8Size_of_isNameChar hc)), List.length_cons, nameLength,
        Nat.add_right_comm, Nat.add_assoc]
    next => rfl

end

section

variable {α : Type} {source : String} {offset : Nat} {c : Char} {rest : List Char}

theorem nameAt_sigil (h : From source offset (c :: rest)) (hc : c.utf8Size = 1)
    (hsigil : (c == '$' || c == '@') = true) :
    nameAt (α := α) source offset c = .safe (
      if nameLength rest = 0 then
        .error (.loneSigil c)
      else
        .ok (.name (.ofList (rest.take (nameLength rest))), offset + 1 + nameLength rest)) := by
  have hrest := h.tail hc
  unfold nameAt
  rw [if_pos hsigil]
  dsimp only
  rw [nameEnd_eq hrest, Checked.lift_bind]
  by_cases hlone : nameLength rest = 0
  · rw [if_pos (by omega), if_pos hlone]
    rfl
  · rw [if_neg (by omega), if_neg hlone,
      hrest.cut?_take _ (nameLength_le_length rest) fun d => utf8Size_of_mem_take_nameLength,
      Checked.lift_bind, if_pos (Nat.lt_succ_self offset)]
    rfl

theorem nameAt_word (h : From source offset (c :: rest))
    (hc : isNameChar c = true) (hsigil : (c == '$' || c == '@') = false) :
    nameAt (α := α) source offset c =
      .safe (.ok (wordToken (.ofList (c :: rest.take (nameLength rest))),
        offset + 1 + nameLength rest)) := by
  have hlength : nameLength (c :: rest) = nameLength rest + 1 := by
    rw [nameLength, List.takeWhile_cons_of_pos hc]
    rfl
  unfold nameAt
  rw [hsigil, if_neg Bool.false_ne_true]
  dsimp only
  rw [nameEnd_eq h, Checked.lift_bind, if_neg (by omega),
    h.cut?_take _ (nameLength_le_length _) fun d => utf8Size_of_mem_take_nameLength,
    Checked.lift_bind, if_neg (Nat.lt_irrefl offset), hlength, Nat.add_right_comm, Nat.add_assoc]
  rfl

theorem signsAt_eq (h : From source offset (c :: rest)) (hc : c.utf8Size = 1) :
    signsAt (α := α) source offset c =
      .safe ((signsToken c rest).map fun token => (token.1, offset + 1 + token.2)) := by
  have hpair : (byte? source (offset + 1)).bind (pairToken? (α := α) c) =
      rest.head?.bind (pairToken? c) :=
    (h.tail hc).byte?_bind fun _ hd => pairToken?_wide (.inr hd)
  unfold signsAt signsToken
  rw [hpair]
  cases rest.head?.bind (pairToken? (α := α) c) with
  | some t => rfl
  | none =>
    cases signToken? (α := α) c with
    | some t => rfl
    | none =>
      rw [h.cut?_rest, Checked.lift_bind, String.toList_ofList]
      rfl

end

section

variable {α : Type} [Amount α] {source : String} {offset : Nat} {c byte : Char} {rest : List Char}

theorem token_wide (hc : 128 ≤ c.val) (rest : List Char) :
    token (α := α) c rest = .error (.strayCharacter c) := by
  have hpair : rest.head?.bind (pairToken? (α := α) c) = none :=
    Option.bind_eq_none_iff.2 fun d _ => pairToken?_wide (.inl hc)
  unfold token signsToken
  rw [hpair, signToken?_wide hc, isDigit_wide hc, isAlpha_wide hc, beq_wide hc (by decide),
    beq_wide hc (by decide), beq_wide hc (by decide), beq_wide hc (by decide)]
  rfl

theorem numberAt_eq (h : From source offset (c :: rest)) (hc : c.isDigit = true ∨ c = '.') :
    numberAt (α := α) source offset =
      .safe ((numberToken (c :: rest.take (numberLength (c == '.') rest))).map
        (·, offset + 1 + numberLength (c == '.') rest)) := by
  unfold numberAt
  rw [literal?_eq h hc, Checked.lift_bind]
  dsimp only
  rw [String.toList_ofList]
  cases numberToken (α := α) (c :: rest.take (numberLength (c == '.') rest)) <;> rfl

theorem tokenAt_eq (h : From source offset (c :: rest)) (hbegins : Begins byte c) :
    tokenAt (α := α) source offset byte =
      .safe ((token c rest).map fun token => (token.1, offset + 1 + token.2)) := by
  cases hbegins with
  | ascii hc =>
    have hdigit : (byte? source (offset + 1)).any Char.isDigit = rest.head?.any Char.isDigit :=
      (h.tail hc).byte?_any fun _ => isDigit_wide
    unfold tokenAt token
    rw [hdigit]
    split
    next hnumber =>
      rw [Bool.or_eq_true, Bool.and_eq_true, beq_iff_eq] at hnumber
      rw [numberAt_eq h (hnumber.imp_right And.left)]
      dsimp only
      cases numberToken (α := α) (c :: rest.take (numberLength (c == '.') rest)) <;> rfl
    next =>
      cases hsigil : c == '$' || c == '@' with
      | true =>
        rw [Bool.true_or, Bool.true_or, if_pos rfl, if_pos rfl, nameAt_sigil h hc hsigil]
        simp only [beq_iff_eq]
        split
        next => rfl
        next => rfl
      | false =>
        rw [Bool.false_or, if_neg Bool.false_ne_true]
        split
        next hword =>
          rw [nameAt_word h (isNameChar_iff.2 (.inl (by simpa using hword))) hsigil]
          rfl
        next => exact signsAt_eq h hc
  | wide hbyte hc =>
    have hpair : (byte? source (offset + 1)).bind (pairToken? (α := α) byte) = none :=
      Option.bind_eq_none_iff.2 fun d _ => pairToken?_wide (.inl hbyte)
    rw [token_wide hc]
    unfold tokenAt signsAt
    rw [hpair, signToken?_wide hbyte, isDigit_wide hbyte, isAlpha_wide hbyte,
      beq_wide hbyte (by decide), beq_wide hbyte (by decide), beq_wide hbyte (by decide),
      beq_wide hbyte (by decide), h.cut?_rest]
    dsimp only [Bool.false_and, Bool.or_self, Bool.false_eq_true, if_false]
    rw [Checked.lift_bind, String.toList_ofList]
    rfl

theorem from_after_token {t : Token α} {more : Nat} (h : From source offset (c :: rest))
    (htoken : token c rest = .ok (t, more)) : From source (offset + 1 + more) (rest.drop more) := by
  have hlexes := lexes_of_token htoken
  have hafter := h.drop (more + 1) (Nat.succ_le_succ hlexes.more_le_length)
    fun d hd => hlexes.utf8Size hd
  rwa [← Nat.add_assoc, Nat.add_right_comm, List.drop_succ_cons] at hafter

theorem scanAt_cons (h : From source offset (c :: rest)) :
    scanAt (α := α) source offset =
      if isBlank c then
        scanAt source (offset + 1)
      else (do
        let (token, stop) ← .safe (((token c rest).map fun token =>
          (token.1, offset + 1 + token.2)).mapError ({ cause := ·, offset }))
        if offset < stop then
          let lexemes ← scanAt source stop
          return { token, start := offset, stop } :: lexemes
        else
          Checked.trap) := by
  obtain ⟨byte, hbyte, hbegins⟩ := h.byte?_cons
  rw [scanAt, if_pos h.lt_utf8ByteSize, hbyte, Checked.lift_bind,
    hbegins.congr fun _ => isBlank_wide, tokenAt_eq h hbegins, Checked.adapt_safe]

/--
On bytes the lexer runs into no trap and finds what it finds on characters.
-/
theorem scanAt_eq (h : From source offset rest) :
    scanAt (α := α) source offset = .safe (scan offset rest) := by
  fun_induction scan (α := α) offset rest with
  | case1 offset =>
    rw [scanAt, if_neg (by simp [h.utf8ByteSize_eq, byteLength])]
    rfl
  | case2 offset c rest hblank ih =>
    rw [scanAt_cons h, if_pos hblank]
    exact ih (h.tail (Text.utf8Size_eq_one (fun _ => isBlank_wide) hblank))
  | case3 offset c rest hblank cause htoken =>
    rw [scanAt_cons h, if_neg hblank, htoken]
    rfl
  | case4 offset c rest hblank t more htoken stop ih =>
    have hrest : (scanAt source stop >>= fun lexemes => pure (⟨t, offset, stop⟩ :: lexemes)) =
        Checked.safe (scan (α := α) stop (rest.drop more) >>= fun lexemes =>
          pure (⟨t, offset, stop⟩ :: lexemes)) := by
      rw [ih (from_after_token h htoken)]
      exact Checked.safe_bind fun _ _ => rfl
    have hstop : offset < stop := Nat.lt_of_lt_of_le (Nat.lt_succ_self _) (Nat.le_add_right _ _)
    rw [scanAt_cons h, if_neg hblank, htoken]
    exact (if_pos hstop).trans hrest

end

end Tariff.Formula
