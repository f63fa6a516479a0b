import Mathlib.Data.List.Chain
import Tariff.Proofs.Formula.Safety

/-!
This module contains the proof that the lexer loses nothing but blanks. Lexemes do not overlap and
leave out only blanks, and the texts of the lexemes are enough to find the tokens again: they may be
put together with any blanks between them, and names may be given a sigil.
-/

namespace Tariff.Formula

open Text

def isSigil (c : Char) : Bool :=
  c == '$' || c == '@'

/--
Whether a text ends any token that stands before it: it is empty, or begins with a blank or a sigil.
-/
def endsToken (cs : List Char) : Bool :=
  cs.head?.all fun c => isBlank c || isSigil c

section

variable {c : Char} {cs word after after' : List Char}

theorem mem_of_endsToken_cons (h : endsToken (c :: cs) = true) :
    c ∈ [' ', '\t', '\n', '\x0c', '\r', '$', '@'] := by
  simpa [endsToken, isBlank, isSigil, or_assoc] using h

theorem isNameChar_of_endsToken (h : endsToken (c :: cs) = true) : isNameChar c = false := by
  have hall : [' ', '\t', '\n', '\x0c', '\r', '$', '@'].all (!isNameChar ·) = true := by decide
  simpa using List.all_eq_true.1 hall c (mem_of_endsToken_cons h)

theorem numberLength_of_endsToken (h : endsToken cs = true) (seenPoint : Bool) :
    numberLength seenPoint cs = 0 := by
  cases cs with
  | nil => rfl
  | cons c cs =>
    have hname := isNameChar_of_endsToken h
    have hpoint : c ≠ '.' := by
      rintro rfl
      cases h
    simp only [isNameChar, Char.isAlphanum, Bool.or_eq_false_iff] at hname
    rw [numberLength, hname.1.2, hname.2, beq_false_of_ne hpoint]
    rfl

theorem nameLength_of_endsToken (h : endsToken cs = true) : nameLength cs = 0 := by
  cases cs with
  | nil => rfl
  | cons c cs =>
    rw [nameLength, List.takeWhile_cons, isNameChar_of_endsToken h]
    rfl

theorem pairToken?_of_endsToken {α : Type} (h : endsToken cs = true) (c : Char) :
    cs.head?.bind (pairToken? (α := α) c) = none := by
  cases cs with
  | nil => rfl
  | cons d cs =>
    have hd := mem_of_endsToken_cons h
    by_contra hsome
    obtain ⟨t, ht⟩ := Option.ne_none_iff_exists'.1 hsome
    rw [List.head?_cons, Option.bind_some] at ht
    unfold pairToken? at ht
    split at ht
    all_goals simp at hd ht

theorem numberLength_append (hafter : endsToken after' = true) {seenPoint : Bool}
    (h : numberLength seenPoint (word ++ after) = word.length) :
    numberLength seenPoint (word ++ after') = word.length := by
  induction word generalizing seenPoint with
  | nil => exact numberLength_of_endsToken hafter seenPoint
  | cons c word ih =>
    simp only [List.cons_append, numberLength, List.length_cons] at h ⊢
    split at h
    next hdigit => rw [if_pos hdigit, ih (Nat.succ.inj h)]
    next hdigit =>
      rw [if_neg hdigit]
      split at h
      next hpoint => rw [if_pos hpoint, ih (Nat.succ.inj h)]
      next => cases h

theorem nameLength_append (hafter : endsToken after' = true)
    (h : nameLength (word ++ after) = word.length) :
    nameLength (word ++ after') = word.length := by
  induction word with
  | nil => exact nameLength_of_endsToken hafter
  | cons c word ih =>
    simp only [List.cons_append, nameLength, List.takeWhile_cons, List.length_cons] at h ⊢
    split at h
    next hc => rw [if_pos hc, List.length_cons, ← nameLength, ih (Nat.succ.inj h)]
    next => cases h

theorem signsToken_append (hafter : endsToken after' = true)
    {α : Type} {t : Token α}
    (h : signsToken c (word ++ after) = .ok (t, word.length)) :
    signsToken c (word ++ after') = .ok (t, word.length) := by
  cases word with
  | nil =>
    unfold signsToken at h ⊢
    rw [List.nil_append, pairToken?_of_endsToken hafter]
    split at h
    next => cases h
    next => exact h
  | cons d word => exact h

end

section

variable {α : Type} [Amount α] {c : Char} {cs word after after' : List Char} {t : Token α}

theorem token_point_ne (after : List Char) : token (α := α) '.' after ≠ .ok (t, 0) := by
  intro h
  cases hdigit : after.head?.any Char.isDigit with
  | false =>
    have hsigns : token (α := α) '.' after = .error (.strayCharacter '.') := by
      have hpair : after.head?.bind (pairToken? (α := α) '.') = none := by
        rw [Option.bind_eq_none_iff]
        intro d _
        rfl
      unfold token signsToken
      rw [hdigit, hpair]
      rfl
    rw [hsigns] at h
    cases h
  | true =>
    cases after with
    | nil => cases hdigit
    | cons d after =>
      have hd : d.isDigit = true := hdigit
      unfold token at h
      rw [hdigit, numberLength, hd] at h
      obtain ⟨_, _, h⟩ := exists_of_bind_eq_ok h
      cases h

theorem token_append (hafter : endsToken after' = true)
    (h : token c (word ++ after) = .ok (t, word.length)) :
    token c (word ++ after') = .ok (t, word.length) := by
  have hdigit : (c == '.' && (word ++ after').head?.any Char.isDigit) =
      (c == '.' && (word ++ after).head?.any Char.isDigit) := by
    cases word with
    | nil =>
      have hc : c ≠ '.' := by
        rintro rfl
        exact token_point_ne after h
      rw [beq_false_of_ne hc, Bool.false_and, Bool.false_and]
    | cons d word => rfl
  unfold token at h ⊢
  rw [hdigit]
  split at h
  next hc =>
    rw [if_pos hc]
    dsimp only at h ⊢
    obtain ⟨t', hvalue, h⟩ := exists_of_bind_eq_ok h
    obtain ⟨rfl, hlength⟩ := Prod.mk.inj (Except.ok.inj h)
    rw [hlength, List.take_left] at hvalue
    rw [numberLength_append hafter hlength, List.take_left, hvalue]
    rfl
  next hc =>
    rw [if_neg hc]
    split at h
    next hsigil =>
      rw [if_pos hsigil]
      dsimp only at h ⊢
      split at h
      next => cases h
      next hne =>
        obtain ⟨rfl, hlength⟩ := Prod.mk.inj (Except.ok.inj h)
        rw [nameLength_append hafter hlength, List.take_left, if_neg (hlength ▸ hne), hlength,
          List.take_left]
    next hsigil =>
      rw [if_neg hsigil]
      split at h
      next hword =>
        rw [if_pos hword]
        dsimp only at h ⊢
        obtain ⟨rfl, hlength⟩ := Prod.mk.inj (Except.ok.inj h)
        rw [nameLength_append hafter hlength, hlength, List.take_left, List.take_left]
      next hword =>
        rw [if_neg hword]
        exact signsToken_append hafter h

theorem isBlank_of_isSigil (h : isSigil c = true) : isBlank c = false := by
  simp only [isSigil, Bool.or_eq_true, beq_iff_eq] at h
  rcases h with rfl | rfl <;> rfl

theorem token_sigil (hsigil : isSigil c = true) (hne : nameLength cs ≠ 0) :
    token (α := α) c cs = .ok (.name (.ofList (cs.take (nameLength cs))), nameLength cs) := by
  simp only [isSigil, Bool.or_eq_true, beq_iff_eq] at hsigil
  unfold token
  rcases hsigil with rfl | rfl
  all_goals simp [hne]

theorem Lexes.eq_nameLength {rest : List Char} {more : Nat} {name : String}
    (h : Lexes (α := α) c rest (.name name) more) : more = nameLength rest := by
  cases h with
  | number hc hvalue =>
    obtain ⟨value, hvalue⟩ := exists_number_of_numberToken hvalue
    cases hvalue
  | sigil | word => rfl
  | pair hd ht =>
    obtain ⟨op, hop⟩ := exists_operator_of_pairToken? ht
    cases hop
  | sign ht =>
    unfold signToken? at ht
    split at ht
    all_goals cases ht

/--
A text is read as a certain token where a certain text follows.
-/
def ReadAs (word after : List Char) (t : Token α) : Prop :=
  ∃ c rest, word = c :: rest ∧ isBlank c = false ∧ token c (rest ++ after) = .ok (t, rest.length)

namespace ReadAs

theorem congr (h : ReadAs word after t) (hhead : after'.head? = after.head?) :
    ReadAs word after' t := by
  obtain ⟨c, rest, rfl, hc, ht⟩ := h
  refine ⟨c, rest, rfl, hc, token_eq_of_take ht ?_⟩
  rw [List.take_length_add_append, List.take_length_add_append, List.take_one, List.take_one, hhead]

theorem of_endsToken (h : ReadAs word after t) (hafter : endsToken after' = true) :
    ReadAs word after' t := by
  obtain ⟨c, rest, rfl, hc, ht⟩ := h
  exact ⟨c, rest, rfl, hc, token_append hafter ht⟩

theorem sigil {name : String} (h : ReadAs word after (.name name : Token α))
    (hplain : word.head?.all (!isSigil ·) = true) {sigil : Char} (hsigil : isSigil sigil = true) :
    ReadAs (sigil :: word) after (.name name : Token α) := by
  obtain ⟨c, rest, rfl, hc, ht⟩ := h
  have hlexes := lexes_of_token ht
  refine ⟨sigil, c :: rest, rfl, isBlank_of_isSigil hsigil, ?_⟩
  rcases hlexes.name_cases with ⟨rfl | rfl, _⟩ | ⟨hword, rfl, _⟩
  · cases hplain
  · cases hplain
  · have hname : isNameChar c = true := isNameChar_iff.2 (.inl hword)
    have hlength : nameLength (c :: (rest ++ after)) = (c :: rest).length := by
      rw [nameLength, List.takeWhile_cons_of_pos hname, List.length_cons, ← nameLength,
        ← hlexes.eq_nameLength, List.length_cons]
    rw [List.cons_append, token_sigil hsigil (by rw [hlength]; exact Nat.succ_ne_zero _),
      take_nameLength, hlength, List.takeWhile_cons_of_pos hname]

end ReadAs

namespace Scans

variable {offset : Nat} {lexemes : List (Lexeme α)} {lexeme : Lexeme α}

theorem exists_readAs (h : Scans offset cs lexemes) (hlexeme : lexeme ∈ lexemes) :
    ∃ word after, cs.drop (lexeme.start - offset) = word ++ after ∧
      lexeme.stop = lexeme.start + word.length ∧ ReadAs word after lexeme.token := by
  induction h with
  | nil => cases hlexeme
  | @blank offset c rest others hc hrest ih =>
    have hplaces := hrest.places hlexeme
    obtain ⟨word, after, hdrop, hstop, hread⟩ := ih hlexeme
    refine ⟨word, after, ?_, hstop, hread⟩
    rwa [show lexeme.start - offset = lexeme.start - (offset + 1) + 1 by omega,
      List.drop_succ_cons]
  | @lexeme offset c rest t more others hc ht hrest ih =>
    cases hlexeme with
    | head =>
      have hlength : (rest.take more).length = more :=
        List.length_take_of_le (lexes_of_token ht).more_le_length
      refine ⟨c :: rest.take more, rest.drop more, ?_, ?_, c, rest.take more, rfl, hc, ?_⟩
      · simp
      · simp only [List.length_cons]
        omega
      · rwa [List.take_append_drop, hlength]
    | tail _ hlexeme =>
      have hplaces := hrest.places hlexeme
      obtain ⟨word, after, hdrop, hstop, hread⟩ := ih hlexeme
      refine ⟨word, after, ?_, hstop, hread⟩
      rw [← hdrop, List.drop_drop,
        show lexeme.start - offset = more + (lexeme.start - (offset + 1 + more)) + 1 by omega,
        List.drop_succ_cons]

theorem pairwise_stop_le_start (h : Scans offset cs lexemes) :
    lexemes.Pairwise fun lexeme next => lexeme.stop ≤ next.start := by
  induction h with
  | nil => exact .nil
  | blank hc hrest ih => exact ih
  | lexeme hc ht hrest ih => exact .cons (fun next hnext => (hrest.places hnext).1) ih

theorem exists_blank (h : Scans offset cs lexemes) {count : Nat} (hcount : count < cs.length)
    (houtside : ∀ lexeme ∈ lexemes, offset + count < lexeme.start ∨ lexeme.stop ≤ offset + count) :
    ∃ c rest, cs.drop count = c :: rest ∧ isBlank c = true := by
  induction h generalizing count with
  | nil => cases hcount
  | @blank offset c rest others hc hrest ih =>
    cases count with
    | zero => exact ⟨c, rest, rfl, hc⟩
    | succ count =>
      refine ih (Nat.lt_of_succ_lt_succ hcount) fun lexeme hlexeme => ?_
      have := houtside lexeme hlexeme
      omega
  | @lexeme offset c rest t more others hc ht hrest ih =>
    rw [List.forall_mem_cons] at houtside
    rw [List.length_cons] at hcount
    dsimp only at houtside
    obtain ⟨behind, rfl⟩ : ∃ behind, count = more + behind + 1 :=
      ⟨count - (more + 1), by omega⟩
    have hbehind : behind < (rest.drop more).length := by
      rw [List.length_drop]
      omega
    rw [List.drop_succ_cons, ← List.drop_drop]
    refine ih hbehind fun lexeme hlexeme => ?_
    have := houtside.2 lexeme hlexeme
    omega

theorem blanks {gap rest : List Char} (hgap : ∀ c ∈ gap, isBlank c = true)
    (h : Scans (offset + gap.length) rest lexemes) : Scans offset (gap ++ rest) lexemes := by
  induction gap generalizing offset with
  | nil => exact h
  | cons c gap ih =>
    rw [List.forall_mem_cons] at hgap
    refine .blank hgap.1 (ih hgap.2 ?_)
    rwa [List.length_cons, Nat.add_comm gap.length, ← Nat.add_assoc] at h

end Scans

end

def Lexeme.text {α : Type} (source : String) (lexeme : Lexeme α) : List Char :=
  slice source.toList lexeme.start lexeme.stop

/--
The ways to write a lexeme of a text: as in the text, or with a sigil if it is a name without one.
-/
inductive Lexeme.Respells {α : Type} (source : String) (lexeme : Lexeme α) : List Char → Prop where
  | same : Respells source lexeme (lexeme.text source)
  | sigil {sigil : Char} {name : String} (hsigil : isSigil sigil = true)
    (hname : lexeme.token = .name name)
    (hplain : (lexeme.text source).head?.all (!isSigil ·) = true) :
    Respells source lexeme (sigil :: lexeme.text source)

structure Piece (α : Type) where
  lexeme : Lexeme α
  word : List Char
  gap : List Char

def written {α : Type} (pieces : List (Piece α)) : List Char :=
  pieces.flatMap fun piece => piece.word ++ piece.gap

/--
Another text with the lexemes of a text. Any blanks can stand around them. Lexemes that touch in the
text may touch here too.
-/
structure Layout {α : Type} (source : String) (lexemes : List (Lexeme α)) where
  margin : List Char
  pieces : List (Piece α)
  lexemes_eq : pieces.map (·.lexeme) = lexemes
  respells : ∀ piece ∈ pieces, piece.lexeme.Respells source piece.word
  isBlank_margin : ∀ c ∈ margin, isBlank c = true
  isBlank_gap : ∀ piece ∈ pieces, ∀ c ∈ piece.gap, isBlank c = true
  /-- Lexemes touch only if they touch in the text. -/
  apart : pieces.IsChain fun piece next =>
    piece.gap = [] → piece.lexeme.stop = next.lexeme.start

def Layout.text {α : Type} {source : String} {lexemes : List (Lexeme α)}
    (layout : Layout source lexemes) : String :=
  .ofList (layout.margin ++ written layout.pieces)

section

variable {α : Type} [Amount α] {source : String} {lexemes : List (Lexeme α)} {lexeme : Lexeme α}

theorem Scans.text_readAs (h : Scans 0 source.toList lexemes) (hlexeme : lexeme ∈ lexemes) :
    source.toList.drop lexeme.start = lexeme.text source ++ source.toList.drop lexeme.stop ∧
      ReadAs (lexeme.text source) (source.toList.drop lexeme.stop) lexeme.token := by
  obtain ⟨word, after, hdrop, hstop, hread⟩ := h.exists_readAs hlexeme
  have htext : lexeme.text source = word := by
    rw [Lexeme.text, hstop]
    exact slice_eq_of_drop (fun c hc => h.utf8Size hc) hdrop
  have hafter : source.toList.drop lexeme.stop = after := by
    rw [hstop, ← List.drop_drop, ← Nat.sub_zero lexeme.start, hdrop, List.drop_left]
  rw [htext, hafter]
  exact ⟨hdrop, hread⟩

theorem Lexeme.Respells.readAs {word after : List Char} (h : lexeme.Respells source word)
    (hread : ReadAs (lexeme.text source) after lexeme.token) : ReadAs word after lexeme.token := by
  cases h with
  | same => exact hread
  | sigil hsigil hname hplain =>
    rw [hname] at hread ⊢
    exact hread.sigil hplain hsigil

theorem endsToken_of_blank {c : Char} {cs : List Char} (hc : isBlank c = true) :
    endsToken (c :: cs) = true := by
  simp [endsToken, hc]

theorem endsToken_of_isSigil {c : Char} {cs : List Char} (hc : isSigil c = true) :
    endsToken (c :: cs) = true := by
  simp [endsToken, hc]

/--
What stands behind a lexeme in another text does not go on with it, either because it did not in the
first text or because nothing does.
-/
theorem Scans.readAs_written (h : Scans 0 source.toList lexemes) {piece : Piece α}
    {pieces : List (Piece α)} (hmem : ∀ other ∈ piece :: pieces, other.lexeme ∈ lexemes)
    (hrespells : ∀ other ∈ piece :: pieces, other.lexeme.Respells source other.word)
    (hgap : ∀ c ∈ piece.gap, isBlank c = true)
    (hnext : ∀ next ∈ pieces.head?, piece.gap = [] → piece.lexeme.stop = next.lexeme.start) :
    ReadAs piece.word (piece.gap ++ written pieces) piece.lexeme.token := by
  have hread := (hrespells piece List.mem_cons_self).readAs
    (h.text_readAs (hmem piece List.mem_cons_self)).2
  cases hempty : piece.gap with
  | cons c gap =>
    exact hread.of_endsToken (endsToken_of_blank (hgap c (hempty ▸ List.mem_cons_self)))
  | nil =>
    cases pieces with
    | nil => exact hread.of_endsToken rfl
    | cons next pieces =>
      have hstop : piece.lexeme.stop = next.lexeme.start := hnext next rfl hempty
      obtain ⟨hdrop, c, rest, htext, _⟩ := h.text_readAs (hmem next (by simp))
      have hword := hrespells next (by simp)
      rw [List.nil_append, written, List.flatMap_cons]
      generalize next.word = word at hword
      cases hword with
      | same =>
        refine hread.congr ?_
        rw [hstop, hdrop, htext]
        rfl
      | sigil hsigil => exact hread.of_endsToken (endsToken_of_isSigil hsigil)

theorem Scans.exists_scans_written (h : Scans 0 source.toList lexemes) {pieces : List (Piece α)}
    (hmem : ∀ piece ∈ pieces, piece.lexeme ∈ lexemes)
    (hrespells : ∀ piece ∈ pieces, piece.lexeme.Respells source piece.word)
    (hgap : ∀ piece ∈ pieces, ∀ c ∈ piece.gap, isBlank c = true)
    (hapart : pieces.IsChain fun piece next =>
      piece.gap = [] → piece.lexeme.stop = next.lexeme.start) (offset : Nat) :
    ∃ lexemes', Scans offset (written pieces) lexemes' ∧
      lexemes'.map (·.token) = pieces.map (·.lexeme.token) := by
  induction pieces generalizing offset with
  | nil => exact ⟨[], .nil offset, rfl⟩
  | cons piece pieces ih =>
    obtain ⟨hnext, hapart⟩ := List.isChain_cons.1 hapart
    have hread := h.readAs_written hmem hrespells (hgap piece List.mem_cons_self) hnext
    rw [List.forall_mem_cons] at hmem hrespells hgap
    obtain ⟨c, rest, hword, hc, ht⟩ := hread
    obtain ⟨lexemes', hscans, htokens⟩ := ih hmem.2 hrespells.2 hgap.2 hapart
      (offset + 1 + rest.length + piece.gap.length)
    refine ⟨⟨piece.lexeme.token, offset, offset + 1 + rest.length⟩ :: lexemes', ?_, ?_⟩
    · rw [written, List.flatMap_cons, hword, List.append_assoc, List.cons_append]
      refine .lexeme hc ht ?_
      rw [List.drop_left]
      exact .blanks hgap.1 hscans
    · rw [List.map_cons, List.map_cons, htokens]

theorem Scans.exists_scans_layout (h : Scans 0 source.toList lexemes)
    (layout : Layout source lexemes) :
    ∃ lexemes', Scans 0 layout.text.toList lexemes' ∧
      lexemes'.map (·.token) = lexemes.map (·.token) := by
  have hmem : ∀ piece ∈ layout.pieces, piece.lexeme ∈ lexemes := by
    intro piece hpiece
    rw [← layout.lexemes_eq]
    exact List.mem_map_of_mem hpiece
  obtain ⟨lexemes', hscans, htokens⟩ := h.exists_scans_written hmem layout.respells
    layout.isBlank_gap layout.apart (0 + layout.margin.length)
  refine ⟨lexemes', ?_, ?_⟩
  · rw [Layout.text, String.toList_ofList]
    exact .blanks layout.isBlank_margin hscans
  · have hlexemes := congrArg (List.map (·.token)) layout.lexemes_eq
    rw [List.map_map] at hlexemes
    exact htokens.trans hlexemes

/--
The lexer is lossless. The lexemes of a text are pieces of it that are not empty, follow each other
and do not overlap, and all bytes outside of them are blanks. Where the texts of the lexemes are put
together again, with blanks between them and new sigils before some names, the tokens are the same.
-/
theorem scan_lossless (h : scan 0 source.toList = .ok lexemes) :
    (∀ lexeme ∈ lexemes, lexeme.start < lexeme.stop ∧ lexeme.stop ≤ source.utf8ByteSize ∧
      cut? source lexeme.start lexeme.stop = some (.ofList (lexeme.text source))) ∧
    lexemes.Pairwise (fun lexeme next => lexeme.stop ≤ next.start) ∧
    (∀ offset < source.utf8ByteSize,
      (∀ lexeme ∈ lexemes, offset < lexeme.start ∨ lexeme.stop ≤ offset) →
      ∃ c, byte? source offset = some c ∧ isBlank c = true) ∧
    ∀ layout : Layout source lexemes, ∃ lexemes', scan 0 layout.text.toList = .ok lexemes' ∧
      lexemes'.map (·.token) = lexemes.map (·.token) := by
  have hscans := scan_eq_ok_iff.1 h
  have hsize : source.utf8ByteSize = source.toList.length := by
    rw [utf8ByteSize_eq, byteLength_eq_length fun c hc => hscans.utf8Size hc]
  refine ⟨?_, hscans.pairwise_stop_le_start, ?_, ?_⟩
  · intro lexeme hlexeme
    have hplaces := hscans.places hlexeme
    exact ⟨hplaces.2.1, by omega, cut?_eq_slice hscans (by omega) (by omega)⟩
  · intro offset hoffset houtside
    obtain ⟨c, rest, hdrop, hc⟩ := hscans.exists_blank (hsize ▸ hoffset) (by simpa using houtside)
    have hfrom := from_of_scans hscans (Nat.le_of_lt (hsize ▸ hoffset))
    rw [hdrop] at hfrom
    obtain ⟨byte, hbyte, hbegins⟩ := hfrom.byte?_cons
    exact ⟨byte, hbyte, (hbegins.congr fun _ => isBlank_wide).trans hc⟩
  · intro layout
    obtain ⟨lexemes', hscans', htokens⟩ := hscans.exists_scans_layout layout
    exact ⟨lexemes', scan_eq_ok_iff.2 hscans', htokens⟩

end

def tightSum : String :=
  "fee+1_.5x<=$if"

def tightSumLexemes : List (Lexeme Float) :=
  [⟨.name "fee", 0, 3⟩, ⟨.operator .add, 3, 4⟩, ⟨.number (Amount.ofDecimal 15 (-1)), 4, 8⟩,
    ⟨.name "x", 8, 9⟩, ⟨.operator .le, 9, 11⟩, ⟨.name "if", 11, 14⟩]

theorem scan_tightSum : scan 0 tightSum.toList = .ok tightSumLexemes := by
  have htext : tightSum.toList =
      ['f', 'e', 'e', '+', '1', '_', '.', '5', 'x', '<', '=', '$', 'i', 'f'] := by
    decide +kernel
  rw [htext, scan_eq_ok_iff]
  refine @Scans.lexeme _ _ _ _ _ _ 2 _ rfl rfl ?_
  refine @Scans.lexeme _ _ _ _ _ _ 0 _ rfl rfl ?_
  refine @Scans.lexeme _ _ _ _ _ _ 3 _ rfl rfl ?_
  refine @Scans.lexeme _ _ _ _ _ _ 0 _ rfl rfl ?_
  refine @Scans.lexeme _ _ _ _ _ _ 1 _ rfl rfl ?_
  refine @Scans.lexeme _ _ _ _ _ _ 2 _ rfl rfl ?_
  exact .nil _

/--
Another text with these lexemes: two of the three names have a new sigil, and three of the five
places where lexemes touch have blanks.
-/
def looseSum : Layout tightSum tightSumLexemes where
  margin := ['\t']
  pieces :=
    [⟨⟨.name "fee", 0, 3⟩, "@fee".toList, []⟩, ⟨⟨.operator .add, 3, 4⟩, ['+'], [' ']⟩,
      ⟨⟨.number (Amount.ofDecimal 15 (-1)), 4, 8⟩, "1_.5".toList, []⟩,
      ⟨⟨.name "x", 8, 9⟩, "$x".toList, ['\n']⟩,
      ⟨⟨.operator .le, 9, 11⟩, "<=".toList, ['\x0c', ' ']⟩,
      ⟨⟨.name "if", 11, 14⟩, "$if".toList, []⟩]
  lexemes_eq := rfl
  respells := by
    have same {lexeme : Lexeme Float} {word : List Char} (htext : lexeme.text tightSum = word) :
        lexeme.Respells tightSum word := htext ▸ .same
    have sigil {lexeme : Lexeme Float} {name : String} {c d : Char} {word : List Char}
        (htext : lexeme.text tightSum = d :: word) (hname : lexeme.token = .name name)
        (hc : isSigil c = true) (hd : isSigil d = false) :
        lexeme.Respells tightSum (c :: d :: word) :=
      htext ▸ .sigil hc hname (by simp [htext, hd])
    simp only [List.forall_mem_cons]
    exact ⟨sigil (by decide +kernel) rfl rfl rfl, same (by decide +kernel),
      same (by decide +kernel), sigil (by decide +kernel) rfl rfl rfl, same (by decide +kernel),
      same (by decide +kernel), nofun⟩
  isBlank_margin := by simp [isBlank]
  isBlank_gap := by simp [isBlank]
  apart := by simp

theorem scan_looseSum :
    scan 0 tightSum.toList = .ok tightSumLexemes ∧ ∃ lexemes,
      scan 0 "\t@fee+ 1_.5$x\n<=\x0c $if".toList = .ok lexemes ∧
      lexemes.map (·.token) = tightSumLexemes.map (·.token) := by
  have htext : looseSum.text = "\t@fee+ 1_.5$x\n<=\x0c $if" := by decide +kernel
  obtain ⟨lexemes, hscan, htokens⟩ := (scan_lossless scan_tightSum).2.2.2 looseSum
  exact ⟨scan_tightSum, lexemes, htext ▸ hscan, htokens⟩

end Tariff.Formula
