import Tariff.Proofs.Formula.FaultPlaces
import Tariff.Proofs.Formula.Literals

/-!
This module contains the safety of the parser on any text: read by byte offsets it runs into no
trap, and every fault lies between two characters of the text.
-/

namespace Tariff.Formula

open Text

section

variable {α : Type}

/--
The part of a list between two positions, if none of them lies outside of the list.
-/
def between? {β : Type} (xs : List β) (start stop : Nat) : Option (List β) :=
  if start ≤ stop ∧ stop ≤ xs.length then some ((xs.take stop).drop start) else none

def expectAt (stop : Nat) (mark : Mark) (lexemes : List (Lexeme α)) (position : Nat) :
    Checked (ParseError α) (Lexeme α × Nat) := do
  let _ ← Checked.safe (Parser.expect stop mark (lexemes.drop position))
  let lexeme ← (lexemes[position]? : Option (Lexeme α))
  return (lexeme, position + 1)

def parseBodyAt (source : String) (key : String) (opening : Lexeme α) (lexemes : List (Lexeme α))
    (position : Nat) : Checked (ParseError α) (Formula α) :=
  match lexemes.getLast?.filter fun _ => position < lexemes.length with
  | some { token := .mark .rightBrace, start := close, .. } => do
    let inner ← between? lexemes position (lexemes.length - 1)
    let expr ← Checked.safe (parseExpression close inner)
    let body ← cut? source opening.stop close
    return { key := some key, body, expr }
  | _ => throw { cause := .openBody, offset := source.utf8ByteSize }

def parseLookupAt (source : String) (lexemes : List (Lexeme α)) :
    Checked (ParseError α) (Formula α) := do
  let stop := source.utf8ByteSize
  let (_, position) ← expectAt stop .lookup lexemes 0
  let (_, position) ← expectAt stop .leftParen lexemes position
  let (key, _) ← Checked.safe (Parser.expectName stop (lexemes.drop position))
  let (_, position) ← expectAt stop .rightParen lexemes (position + 1)
  let (opening, position) ← expectAt stop .leftBrace lexemes position
  parseBodyAt source key opening lexemes position

theorem expectAt_eq (stop : Nat) (mark : Mark) (lexemes : List (Lexeme α)) (position : Nat) :
    expectAt stop mark lexemes position =
      .safe ((Parser.expect stop mark (lexemes.drop position)).map
        fun parsed => (parsed.1, position + 1)) := by
  unfold expectAt
  cases hparsed : Parser.expect stop mark (lexemes.drop position) with
  | error fault => rfl
  | ok parsed =>
    obtain ⟨hdrop, _⟩ := Parser.expect_gives stop mark _ parsed hparsed
    have hget : lexemes[position]? = some parsed.1 := by
      rw [← List.head?_drop, hdrop, List.head?_cons]
    rw [hget]
    rfl

theorem expectAt_bind {γ : Type} {stop position : Nat} {mark : Mark} {lexemes : List (Lexeme α)}
    {f : Lexeme α × Nat → Checked (ParseError α) γ}
    {g : Parser.Parsed α (Lexeme α) → Parser.Parse α γ}
    (h : ∀ lexeme, lexemes.drop position = lexeme :: lexemes.drop (position + 1) →
      f (lexeme, position + 1) = .safe (g (lexeme, lexemes.drop (position + 1)))) :
    (expectAt stop mark lexemes position >>= f) =
      .safe (Parser.expect stop mark (lexemes.drop position) >>= g) := by
  rw [expectAt_eq]
  cases hparsed : Parser.expect stop mark (lexemes.drop position) with
  | error fault => rfl
  | ok parsed =>
    obtain ⟨hdrop, _⟩ := Parser.expect_gives stop mark _ parsed hparsed
    have hrest : parsed.2 = lexemes.drop (position + 1) := by
      rw [← List.tail_drop, hdrop, List.tail_cons]
    rw [hrest] at hdrop
    refine (h parsed.1 hdrop).trans ?_
    rw [← hrest]
    rfl

theorem between?_eq_dropLast {β : Type} {xs : List β} {start : Nat} (h : start < xs.length) :
    between? xs start (xs.length - 1) = some (xs.drop start).dropLast := by
  rw [between?, if_pos (by omega), List.dropLast_eq_take, List.drop_take, List.length_drop]
  congr 2
  omega

theorem getLast?_filter_eq {β : Type} (xs : List β) (start : Nat) :
    xs.getLast?.filter (fun _ => decide (start < xs.length)) = (xs.drop start).getLast? := by
  rw [List.getLast?_drop]
  split
  next hle => simp [Nat.not_lt.2 hle]
  next hlt =>
    rw [decide_eq_true (Nat.not_le.1 hlt)]
    cases xs.getLast? <;> rfl

/--
A fault lies in a text, between two of its characters, and it is no malformed number literal.
-/
structure WellPlaced (source : String) (error : ParseError α) : Prop where
  offset_le : error.offset ≤ source.utf8ByteSize
  isValid : (String.Pos.Raw.mk error.offset).IsValid source
  cause : ∀ text, error.cause ≠ .malformedNumber text

theorem wellPlaced_of_from {source : String} {rest : List Char} {error : ParseError α}
    (h : From source error.offset rest) (hcause : ∀ text, error.cause ≠ .malformedNumber text) :
    WellPlaced source error where
  offset_le := by
    rw [h.utf8ByteSize_eq]
    apply Nat.le_add_right
  isValid := h.isValid
  cause := hcause

end

variable {α : Type} [Amount α] {cs rest : List Char}

def parseAt (source : String) : Checked (ParseError α) (Formula α) := do
  let lexemes ← scanAt source 0
  match lexemes with
  | { token := .mark .lookup, .. } :: _ => parseLookupAt source lexemes
  | _ => do
    let expr ← Checked.safe (parseExpression source.utf8ByteSize lexemes)
    return { key := none, body := source, expr }

theorem scan_wellPlaced {source : String} {offset : Nat} (h : From source offset rest) :
    FaultsIn (WellPlaced source) (scan (α := α) offset rest) := by
  fun_induction scan (α := α) offset rest with
  | case1 => exact .ok _
  | case2 offset c rest hblank ih =>
    exact ih (h.tail (Text.utf8Size_eq_one (fun _ => isBlank_wide) hblank))
  | case3 offset c rest hblank cause htoken =>
    exact .error (wellPlaced_of_from h (token_faultsIn c rest cause htoken))
  | case4 offset c rest hblank t more htoken stop ih =>
    exact (ih (from_after_token h htoken)).bind fun lexemes _ => .ok _

theorem Scans.places {offset : Nat} {lexemes : List (Lexeme α)} (h : Scans offset cs lexemes)
    {lexeme : Lexeme α} (hlexeme : lexeme ∈ lexemes) :
    offset ≤ lexeme.start ∧ lexeme.start < lexeme.stop ∧ lexeme.stop ≤ offset + cs.length := by
  induction h with
  | nil => cases hlexeme
  | blank hc hrest ih =>
    have := ih hlexeme
    rw [List.length_cons]
    omega
  | lexeme hc ht hrest ih =>
    have hmore := (lexes_of_token ht).more_le_length
    rw [List.length_cons]
    cases hlexeme with
    | head =>
      dsimp only
      omega
    | tail _ hlexeme =>
      have := ih hlexeme
      rw [List.length_drop] at this
      omega

theorem from_of_scans {source : String} {lexemes : List (Lexeme α)}
    (h : Scans 0 source.toList lexemes) {offset : Nat} (hoffset : offset ≤ source.toList.length) :
    From source offset (source.toList.drop offset) := by
  have hdrop := (From.zero source).drop offset hoffset fun c hc =>
    h.utf8Size (List.mem_of_mem_take hc)
  rwa [Nat.zero_add] at hdrop

theorem PlacedAt.wellPlaced {source : String} {lexemes : List (Lexeme α)}
    (hscan : Scans 0 source.toList lexemes) {error : ParseError α}
    (h : PlacedAt (Text.byteLength source.toList) lexemes error) : WellPlaced source error := by
  have hlength : Text.byteLength source.toList = source.toList.length :=
    byteLength_eq_length fun c hc => hscan.utf8Size hc
  refine wellPlaced_of_from (from_of_scans hscan ?_) h.cause
  rcases h.offset with hoffset | ⟨lexeme, hlexeme, hoffset⟩
  · exact Nat.le_of_eq (hoffset.trans hlength)
  · have := hscan.places hlexeme
    omega

theorem parse_wellPlaced (source : String) :
    FaultsIn (WellPlaced source) (parse (α := α) source) := by
  unfold parse
  refine (scan_wellPlaced (From.zero source)).bind fun lexemes hscan => ?_
  have hscan := scan_eq_ok_iff.1 hscan
  split
  next =>
    refine (parseLookup_placed source.toList _).imp fun error herror => ?_
    exact (herror.cons _).wellPlaced hscan
  next =>
    refine FaultsIn.bind ?_ fun expr _ => .ok _
    exact (parseExpression_placed _ lexemes).imp fun error herror => herror.wellPlaced hscan

theorem cut?_eq_slice {source : String} {lexemes : List (Lexeme α)}
    (hscan : Scans 0 source.toList lexemes) {start stop : Nat} (hle : start ≤ stop)
    (hstop : stop ≤ source.toList.length) :
    cut? source start stop = some (.ofList (slice source.toList start stop)) := by
  have hascii : ∀ c ∈ source.toList.drop start, c.utf8Size = 1 :=
    fun c hc => hscan.utf8Size (List.mem_of_mem_drop hc)
  have hcut := (from_of_scans hscan (Nat.le_trans hle hstop)).cut?_take (stop - start)
    (by rw [List.length_drop]; omega) fun c hc => hascii c (List.mem_of_mem_take hc)
  rw [slice, dropBytes_eq_drop fun c hc => hscan.utf8Size hc, takeBytes_eq_take hascii, ← hcut,
    Nat.add_sub_cancel' hle]

theorem parseBodyAt_eq {source : String} {key : String} {opening : Lexeme α}
    {lexemes : List (Lexeme α)} {position : Nat} (hscan : Scans 0 source.toList lexemes)
    (hopening : lexemes.drop position = opening :: lexemes.drop (position + 1)) :
    parseBodyAt source key opening lexemes (position + 1) =
      .safe (match (lexemes.drop (position + 1)).getLast? with
        | some { token := .mark .rightBrace, start := close, .. } => do
          let expr ← parseExpression close (lexemes.drop (position + 1)).dropLast
          return {
            key := some key
            body := .ofList (slice source.toList opening.stop close)
            expr }
        | _ => .error { cause := .openBody, offset := byteLength source.toList }) := by
  unfold parseBodyAt
  rw [getLast?_filter_eq, utf8ByteSize_eq]
  split
  next close after hlast =>
    have hclose := List.mem_of_getLast? hlast
    have hposition : position + 1 < lexemes.length := by
      have hpositive := List.length_pos_of_mem hclose
      rw [List.length_drop] at hpositive
      omega
    -- The closing brace comes after the opening one, in the lexemes and so in the text.
    rw [← List.take_append_drop position lexemes, hopening] at hscan
    have hafter := hscan.after.2.places hclose
    have hmem : opening ∈ lexemes.take position ++ opening :: lexemes.drop (position + 1) := by
      simp
    have hplaces := hscan.places hmem
    rw [List.length_drop] at hafter
    dsimp only at hafter
    rw [between?_eq_dropLast hposition, Checked.lift_bind]
    refine Checked.safe_bind fun expr _ => ?_
    rw [cut?_eq_slice hscan (by omega) (by omega), Checked.lift_bind]
    rfl
  next => rfl

theorem parseLookupAt_eq {source : String} {first : Lexeme α} {lexemes : List (Lexeme α)}
    (hscan : Scans 0 source.toList (first :: lexemes)) (hfirst : first.token = .mark .lookup) :
    parseLookupAt source (first :: lexemes) = .safe (parseLookup source.toList lexemes) := by
  obtain ⟨_, start, stop⟩ := first
  dsimp only at hfirst
  subst hfirst
  generalize hall : (⟨.mark .lookup, start, stop⟩ :: lexemes : List (Lexeme α)) = all at hscan
  have hlookup : expectAt (byteLength source.toList) .lookup all 0 =
      pure (⟨.mark .lookup, start, stop⟩, 1) := by
    rw [← hall, expectAt, List.drop_zero, Parser.expect_mark]
    rfl
  have hlexemes : lexemes = all.drop 1 := by
    rw [← hall]
    rfl
  unfold parseLookupAt parseLookup
  dsimp only
  rw [utf8ByteSize_eq, hlookup, pure_bind, hlexemes]
  refine expectAt_bind fun paren _ => ?_
  refine Checked.safe_bind fun name hname => ?_
  obtain ⟨_, hname, _⟩ := Parser.expectName_gives _ _ name hname
  have hrest : name.2 = all.drop 3 := by
    rw [← List.tail_drop, hname, List.tail_cons]
  rw [hrest]
  refine expectAt_bind fun close _ => ?_
  refine expectAt_bind fun opening hopening => ?_
  exact parseBodyAt_eq hscan hopening

theorem parseAt_eq (source : String) : parseAt (α := α) source = .safe (parse source) := by
  unfold parseAt parse
  rw [scanAt_eq (From.zero source), utf8ByteSize_eq]
  refine Checked.safe_bind fun lexemes hscan => ?_
  have hscan := scan_eq_ok_iff.1 hscan
  have hbare : (do
      let expr ← Checked.safe (parseExpression (byteLength source.toList) lexemes)
      return { key := none, body := source, expr } : Checked (ParseError α) (Formula α)) =
    .safe (do
      let expr ← parseExpression (byteLength source.toList) lexemes
      return { key := none, body := source, expr }) :=
    Checked.safe_bind fun expr _ => rfl
  cases lexemes with
  | nil => exact hbare
  | cons first rest =>
    obtain ⟨t, start, stop⟩ := first
    cases t with
    | mark mark =>
      cases mark with
      | lookup => exact parseLookupAt_eq hscan rfl
      | _ => exact hbare
    | _ => exact hbare

/--
Parsing is safe on every text. Read by byte offsets, neither the lexer nor the parser cuts a
character apart or reads beyond a text or a list. Every fault lies within the text and between two
characters. Where a number literal begins, its text is a numeral once the underscores are left out,
and so no number literal is malformed.
-/
theorem parse_safe (source : String) :
    scanAt (α := α) source 0 = .safe (scan 0 source.toList) ∧
    parseAt (α := α) source = .safe (parse source) ∧
    (∀ stop mark (lexemes : List (Lexeme α)) position, expectAt stop mark lexemes position =
      .safe ((Parser.expect stop mark (lexemes.drop position)).map
        fun parsed => (parsed.1, position + 1))) ∧
    FaultsIn (WellPlaced source) (scan (α := α) 0 source.toList) ∧
    FaultsIn (WellPlaced source) (parse (α := α) source) ∧
    ∀ offset c rest, From source offset (c :: rest) →
      (c.isDigit || (c == '.' && rest.head?.any Char.isDigit)) = true →
      ∃ text stop, literal? source offset = some (text, stop) ∧
        Decimal.IsNumeral (text.toList.filter (· != '_')) :=
  ⟨scanAt_eq (From.zero source), parseAt_eq source, expectAt_eq, scan_wellPlaced (From.zero source),
    parse_wellPlaced source, fun _ _ _ => exists_literal?⟩

/--
A number literal with an underscore before its point, right before a character of two bytes.
-/
def wideText : String :=
  "rate + 1_.5é * 2"

theorem parse_safe_wideText :
    (∃ error : ParseError Float, parse wideText = .error error ∧ error.offset = 11 ∧
      WellPlaced wideText error) ∧
    literal? wideText 7 = some ("1_.5", 11) ∧ Decimal.IsNumeral "1.5".toList := by
  obtain ⟨-, -, -, -, hfaults, hliterals⟩ := parse_safe (α := Float) wideText
  constructor
  · have hoffset : (match (parse wideText : Except (ParseError Float) _) with
        | .error error => error.offset == 11
        | .ok _ => false) = true := by
      decide +kernel
    cases hparse : (parse wideText : Except (ParseError Float) _) with
    | error error =>
      rw [hparse] at hoffset
      exact ⟨error, rfl, beq_iff_eq.1 hoffset, hfaults error hparse⟩
    | ok formula =>
      rw [hparse] at hoffset
      cases hoffset
  · have hfrom : From wideText 7 ('1' :: "_.5é * 2".toList) :=
      ⟨"rate + ".toList, by decide +kernel, by decide +kernel⟩
    have hliteral : literal? wideText 7 = some ("1_.5", 11) :=
      (literal?_eq hfrom (.inl rfl)).trans (by decide +kernel)
    obtain ⟨text, stop, htext, hnumeral⟩ := hliterals 7 '1' _ hfrom (by decide +kernel)
    obtain ⟨rfl, rfl⟩ := Prod.mk.inj (Option.some.inj (hliteral.symm.trans htext))
    refine ⟨hliteral, ?_⟩
    have hfilter : "1_.5".toList.filter (· != '_') = "1.5".toList := by decide +kernel
    rwa [hfilter] at hnumeral

end Tariff.Formula
