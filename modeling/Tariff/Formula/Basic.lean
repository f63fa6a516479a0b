import Tariff.Formula.Lexer
import Tariff.Formula.Parser
import Tariff.Text

/-!
This module contains formulas: an expression that may be wrapped as `lookup(key){...}`, in which
case it is evaluated against the row that the key's quantity selects.
-/

namespace Tariff

open Formula

/--
A formula. It keeps the text of its expression, so that it can be written back unchanged.
-/
structure Formula (α : Type) where
  key : Option String
  body : String
  expr : Expr α
deriving Repr

namespace Formula

variable {α : Type}

instance [BEq α] : BEq (Formula α) where
  beq a b := a.key == b.key && a.body == b.body && a.expr == b.expr

/--
The formula as text. The key is written without a sigil.
-/
def render (formula : Formula α) : String :=
  match formula.key with
  | some key => "lookup(" ++ key ++ ")\x7b" ++ formula.body ++ "\x7d"
  | none => formula.body

def identifiers (formula : Formula α) : List String :=
  formula.expr.identifiers

/--
Parse the lexemes after the word `lookup`: the key in parentheses, then the body in braces. The
closing brace is the last lexeme of the text.
-/
def parseLookup (source : List Char) (lexemes : List (Lexeme α)) :
    Except (ParseError α) (Formula α) := do
  let stop := Text.byteLength source
  let (_, lexemes) ← Parser.expect stop .leftParen lexemes
  let (key, lexemes) ← Parser.expectName stop lexemes
  let (_, lexemes) ← Parser.expect stop .rightParen lexemes
  let (opening, lexemes) ← Parser.expect stop .leftBrace lexemes
  match lexemes.getLast? with
  | some { token := .mark .rightBrace, start := close, .. } => do
    let expr ← parseExpression close lexemes.dropLast
    return { key := some key, body := .ofList (Text.slice source opening.stop close), expr }
  | _ => .error { cause := .openBody, offset := stop }

def parse [Amount α] (source : String) : Except (ParseError α) (Formula α) := do
  let cs := source.toList
  let lexemes ← scan 0 cs
  match lexemes with
  | { token := .mark .lookup, .. } :: rest => parseLookup cs rest
  | _ => do
    let expr ← parseExpression (Text.byteLength cs) lexemes
    return { key := none, body := source, expr }

end Formula

end Tariff
