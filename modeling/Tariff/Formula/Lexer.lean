import Tariff.Amount
import Tariff.Decimal.Numeral
import Tariff.Formula.Token

/-!
This module contains the lexer for formula text. Every token is made of ASCII characters, so
counting characters within a token counts bytes.
-/

namespace Tariff.Formula

def isBlank (c : Char) : Bool :=
  c == ' ' || c == '\t' || c == '\n' || c == '\x0c' || c == '\r'

def isNameChar (c : Char) : Bool :=
  c.isAlphanum || c == '_'

/--
The number of characters at the beginning of a text that continue a number literal: digits and
underscores, and one point unless one came before.
-/
def numberLength : (seenPoint : Bool) → List Char → Nat
  | _, [] => 0
  | seenPoint, c :: cs =>
    if c.isDigit || c == '_' then numberLength seenPoint cs + 1
    else if c == '.' && !seenPoint then numberLength true cs + 1
    else 0

def nameLength (cs : List Char) : Nat :=
  (cs.takeWhile isNameChar).length

/--
The token a word stands for when it has no sigil.
-/
def wordToken {α : Type} (word : String) : Token α :=
  match word with
  | "lookup" => .mark .lookup
  | "if" => .mark .ifWord
  | "then" => .mark .thenWord
  | "else" => .mark .elseWord
  | "and" => .operator .and
  | "or" => .operator .or
  | "not" => .mark .not
  | _ => .name word

def pairToken? {α : Type} (first second : Char) : Option (Token α) :=
  match first, second with
  | '=', '=' => some (.operator .eq)
  | '!', '=' => some (.operator .ne)
  | '<', '=' => some (.operator .le)
  | '>', '=' => some (.operator .ge)
  | '&', '&' => some (.operator .and)
  | '|', '|' => some (.operator .or)
  | _, _ => none

def signToken? {α : Type} (c : Char) : Option (Token α) :=
  match c with
  | '(' => some (.mark .leftParen)
  | ')' => some (.mark .rightParen)
  | '\x7b' => some (.mark .leftBrace)
  | '\x7d' => some (.mark .rightBrace)
  | ',' => some (.mark .comma)
  | '+' => some (.operator .add)
  | '-' => some (.operator .sub)
  | '*' => some (.operator .mul)
  | '/' => some (.operator .div)
  | '<' => some (.operator .lt)
  | '>' => some (.operator .gt)
  | '!' => some (.mark .not)
  | _ => none

variable {α : Type} [Amount α]

/--
Turn the text of a number literal into its token. Underscores have no meaning.
-/
def numberToken (text : List Char) : Except (ParseCause α) (Token α) :=
  match Decimal.Numeral.unsigned? false (text.filter (· != '_')) with
  | some numeral => .ok (.number (Amount.ofDecimal numeral.digits numeral.exponent))
  | none => .error (.malformedNumber (.ofList text))

/--
Turn signs at the beginning of a text into their token, the longer spelling first.
-/
def signsToken (c : Char) (rest : List Char) : Except (ParseCause α) (Token α × Nat) :=
  match rest.head?.bind (pairToken? c) with
  | some token => .ok (token, 1)
  | none =>
    match signToken? c with
    | some token => .ok (token, 0)
    | none => .error (.strayCharacter c)

/--
Read the token that begins with the character `c`. Also give the number of characters of `rest` that
belong to it.
-/
def token (c : Char) (rest : List Char) : Except (ParseCause α) (Token α × Nat) :=
  if c.isDigit || (c == '.' && rest.head?.any Char.isDigit) then do
    let more := numberLength (c == '.') rest
    return (← numberToken (c :: rest.take more), more)
  else if c == '$' || c == '@' then
    let more := nameLength rest
    if more == 0 then
      .error (.loneSigil c)
    else
      .ok (.name (.ofList (rest.take more)), more)
  else if c.isAlpha || c == '_' then
    let more := nameLength rest
    .ok (wordToken (.ofList (c :: rest.take more)), more)
  else
    signsToken c rest

/--
Turn formula text that stands at a byte offset into its lexemes.
-/
def scan (offset : Nat) : List Char → Except (ParseError α) (List (Lexeme α))
  | [] => .ok []
  | c :: rest =>
    if isBlank c then
      scan (offset + 1) rest
    else
      match token c rest with
      | .error cause => .error { cause, offset }
      | .ok (token, more) => do
        let stop := offset + 1 + more
        let lexemes ← scan stop (rest.drop more)
        return { token, start := offset, stop } :: lexemes
termination_by cs => cs.length

end Tariff.Formula
