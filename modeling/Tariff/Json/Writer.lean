import Tariff.Decimal.Layout
import Tariff.Json.Basic

/-!
This module contains the two ways JSON documents are written: on one line, and indented.
-/

namespace Tariff.Json

/--
Numbers have a point or an exponent, which is written from ten quadrillion up and below a
hundred-thousandth and always has a sign.
-/
def numberLayout : Decimal.Layout where
  positional exponent := -5 ≤ exponent && exponent ≤ 15
  keepsPoint := true
  plusSign := true
  tie := .even

def hexDigit (n : Nat) : Char :=
  if n < 10 then Char.ofNat ('0'.toNat + n) else Char.ofNat ('a'.toNat + (n - 10))

def escape (c : Char) : List Char :=
  match c with
  | '"' => ['\\', '"']
  | '\\' => ['\\', '\\']
  | '\x08' => ['\\', 'b']
  | '\x0c' => ['\\', 'f']
  | '\n' => ['\\', 'n']
  | '\x0d' => ['\\', 'r']
  | '\t' => ['\\', 't']
  | c =>
    if c.toNat < 32 then
      ['\\', 'u', '0', '0', hexDigit (c.toNat / 16), hexDigit (c.toNat % 16)]
    else
      [c]

def quote (text : String) : String :=
  "\"" ++ .ofList (text.toList.flatMap escape) ++ "\""

/--
A number. There is no spelling for a number that is not finite, so nothing stands for it.
-/
def writeNumber (x : Float) : String :=
  if x.isFinite then numberLayout.render x else "null"

/--
How the parts of lists and objects are separated at a depth of indentation.
-/
structure Style where
  /-- What comes before every item or member of a list or object at this depth. -/
  lead : Nat → String
  /-- What comes before the closing bracket of a list or object at this depth. -/
  close : Nat → String
  colon : String

def Style.compact : Style where
  lead _ := ""
  close _ := ""
  colon := ":"

def Style.pretty : Style where
  lead depth := "\n" ++ .ofList (List.replicate (2 * (depth + 1)) ' ')
  close depth := "\n" ++ .ofList (List.replicate (2 * depth) ' ')
  colon := ": "

mutual

def write (style : Style) (depth : Nat) : Json Float → String
  | null => "null"
  | bool value => if value then "true" else "false"
  | natural value => Nat.repr value
  | real value => writeNumber value
  | string value => quote value
  | list [] => "[]"
  | list (item :: items) =>
    "[" ++ style.lead depth ++ write style (depth + 1) item ++ writeItems style depth items
      ++ style.close depth ++ "]"
  | object [] => "\x7b\x7d"
  | object ((key, value) :: members) =>
    "\x7b" ++ style.lead depth ++ quote key ++ style.colon
      ++ write style (depth + 1) value ++ writeMembers style depth members
      ++ style.close depth ++ "\x7d"

def writeItems (style : Style) (depth : Nat) : List (Json Float) → String
  | [] => ""
  | item :: items =>
    "," ++ style.lead depth ++ write style (depth + 1) item ++ writeItems style depth items

def writeMembers (style : Style) (depth : Nat) : List (String × Json Float) → String
  | [] => ""
  | (key, value) :: members =>
    "," ++ style.lead depth ++ quote key ++ style.colon
      ++ write style (depth + 1) value ++ writeMembers style depth members

end

def compact (json : Json Float) : String :=
  write .compact 0 json

def pretty (json : Json Float) : String :=
  write .pretty 0 json

end Tariff.Json
