/-!
This module contains the tokens formula text is made of, and what can be wrong with a formula.
-/

namespace Tariff.Formula

inductive Operator where
  | add
  | sub
  | mul
  | div
  | lt
  | le
  | gt
  | ge
  | eq
  | ne
  | and
  | or
deriving Repr, DecidableEq

/--
Words and signs with a fixed spelling that are not operators between two operands.
-/
inductive Mark where
  | lookup
  | ifWord
  | thenWord
  | elseWord
  | not
  | leftParen
  | rightParen
  | leftBrace
  | rightBrace
  | comma
deriving Repr, DecidableEq

inductive Token (α : Type) where
  | number (value : α)
  /-- A variable, without its sigil. -/
  | name (text : String)
  | operator (op : Operator)
  | mark (mark : Mark)
deriving Repr, BEq

/--
A token with the place it was read from, in bytes of the formula text.
-/
structure Lexeme (α : Type) where
  token : Token α
  start : Nat
  stop : Nat
deriving Repr

inductive ParseCause (α : Type) where
  | malformedNumber (text : String)
  | loneSigil (sigil : Char)
  | strayCharacter (char : Char)
  /-- A lookup body without its closing brace. -/
  | openBody
  /-- A lookup inside an expression. -/
  | innerLookup
  | emptyExpression
  | tooDeep
  | expected (mark : Mark) (found : Option (Token α))
  | expectedName (found : Option (Token α))
  | unexpected (found : Option (Token α))
  | trailing (found : Token α)
  | unknownFunction (name : String)
  | tooFewArguments (name : String)
deriving Repr

/--
A defect of a formula and where it is, in bytes of the formula text.
-/
structure ParseError (α : Type) where
  cause : ParseCause α
  offset : Nat
deriving Repr

/--
How deep an expression may nest. This bounds the recursion of everything that walks an expression.
-/
def maxNesting : Nat := 128

end Tariff.Formula
