import Tariff.Amount
import Tariff.Decimal.Numeral
import Tariff.Json.Draft
import Tariff.Text

/-!
This module contains the reader of JSON text. A machine takes one token at a time; its state holds
the lists and objects that are still open, and says which characters the next token may begin with.
What begins with another character is not looked at any further.
-/

namespace Tariff.Json.Reader

def isBlank (c : Char) : Bool :=
  c == ' ' || c == '\n' || c == '\t' || c == '\x0d'

def hexDigit? (c : Char) : Option Nat :=
  if c.isDigit then some (c.toNat - '0'.toNat)
  else if 'a' ≤ c && c ≤ 'f' then some (c.toNat - 'a'.toNat + 10)
  else if 'A' ≤ c && c ≤ 'F' then some (c.toNat - 'A'.toNat + 10)
  else none

/--
Read four hexadecimal digits. If fewer than four bytes are left, the text ends too early, whatever
they are.
-/
def hexUnit (cs : List Char) : Except Fault Nat :=
  if Text.byteLength (cs.take 4) < 4 then
    .error .incomplete
  else
    match cs.take 4 |>.mapM hexDigit? with
    | some digits => .ok (digits.foldl (fun n digit => 16 * n + digit) 0)
    | none => .error .malformed

def letterEscape? (c : Char) : Option Char :=
  match c with
  | '"' => some '"'
  | '\\' => some '\\'
  | '/' => some '/'
  | 'b' => some '\x08'
  | 'f' => some '\x0c'
  | 'n' => some '\n'
  | 'r' => some '\x0d'
  | 't' => some '\t'
  | _ => none

/--
What a string is made of: characters, and code units given by number.
-/
inductive Piece where
  | char (c : Char)
  | unit (value : Nat)

/--
Read the pieces of a string up to its closing quote. Also give the number of characters used, or the
fault that ends the string before.
-/
def pieces : List Char → List Piece × Except Fault Nat
  | [] => ([], .error .incomplete)
  | '"' :: _ => ([], .ok 1)
  | ['\\'] => ([], .error .incomplete)
  | '\\' :: 'u' :: cs =>
    match hexUnit cs with
    | .error fault => ([], .error fault)
    | .ok unit => after (.unit unit) 6 (pieces (cs.drop 4))
  | '\\' :: c :: cs =>
    match letterEscape? c with
    | none => ([], .error .malformed)
    | some c => after (.char c) 2 (pieces cs)
  | c :: cs =>
    if c.toNat < 32 then ([], .error .malformed) else after (.char c) 1 (pieces cs)
termination_by cs => cs.length
where
  after (piece : Piece) (length : Nat) :
      List Piece × Except Fault Nat → List Piece × Except Fault Nat
    | (others, ending) => (piece :: others, ending.map (· + length))

/--
Join pieces to characters. Two units of a pair make one character; a unit of a pair alone makes
none. `ending` is the fault that ends the string, if there is one.
-/
def join (ending : Option Fault) : List Piece → Except Fault (List Char)
  | [] => Draft.close ending []
  | .char c :: rest => do
    let rest ← join ending rest
    return c :: rest
  | .unit high :: rest =>
    if 0xD800 ≤ high && high < 0xDC00 then
      match rest with
      | .unit low :: rest =>
        if 0xDC00 ≤ low && low < 0xE000 then do
          let rest ← join ending rest
          return Char.ofNat (0x10000 + (high - 0xD800) * 0x400 + (low - 0xDC00)) :: rest
        else
          .error .malformed
      | [] => .error (ending.getD .malformed)
      | _ => .error .malformed
    else if 0xDC00 ≤ high && high < 0xE000 then
      .error .malformed
    else do
      let rest ← join ending rest
      return Char.ofNat high :: rest

variable {α : Type}

/--
Read a string after its opening quote. Also give the number of characters used. A string without an
end is a defect after which nothing is read.
-/
def string (cs : List Char) : Except Defect (Draft α × Nat) :=
  let (pieces, ending) := pieces cs
  match ending with
  | .ok used =>
    match join none pieces with
    | .ok chars => .ok (.string (.ofList chars), used)
    | .error fault => .ok (.broken { lead := '"', read := fault, passed := none }, used)
  | .error passed =>
    match join (some passed) pieces with
    | .ok _ => .error { lead := '"', read := passed, passed }
    | .error read => .error { lead := '"', read, passed }

def word (first : Char) (others : List Char) (value : Draft α) (cs : List Char) :
    Except Defect (Draft α × Nat) :=
  if others.isPrefixOf cs then
    .ok (value, others.length)
  else
    let fault := if cs.isPrefixOf others then .incomplete else .malformed
    .error { lead := first, read := fault, passed := fault }

def digits (cs : List Char) : Except Fault (List Char × List Char) :=
  match cs.takeWhile Char.isDigit with
  | [] => .error (if cs.isEmpty then .incomplete else .malformed)
  | run => .ok (run, cs.dropWhile Char.isDigit)

/--
Split the whole part of a number off a text. It has no zero before other digits.
-/
def wholePart (cs : List Char) : Except Fault (List Char × List Char) :=
  match cs with
  | '0' :: c :: cs => if c.isDigit then .error .malformed else .ok (['0'], c :: cs)
  | cs => digits cs

def fractionPart (cs : List Char) : Except Fault (List Char × List Char) :=
  match cs with
  | '.' :: cs => digits cs
  | cs => .ok ([], cs)

def exponentPart (cs : List Char) : Except Fault (Option Int × List Char) :=
  match cs with
  | e :: rest =>
    if e == 'e' || e == 'E' then do
      let (negative, rest) := Decimal.Numeral.splitSign rest
      let (run, rest) ← digits rest
      let magnitude := Decimal.readDigits run
      return (some (if negative then -magnitude else magnitude), rest)
    else
      .ok (none, cs)
  | [] => .ok (none, [])

variable [Amount α]

/--
The number with the given parts. Whole numbers that fit a machine word are kept apart. A number that
is too large cannot be read.
-/
def numberOf (lead : Char) (negative : Bool) (whole fraction : List Char) (exponent : Option Int) :
    Draft α :=
  let value := Decimal.readDigits (whole ++ fraction)
  if fraction.isEmpty && exponent.isNone && !negative && value < UInt64.size then
    .natural value
  else
    let x := Amount.ofDecimal value (exponent.getD 0 - fraction.length)
    if Amount.isFinite x then .real (if negative then -x else x)
    else .broken { lead, read := .malformed, passed := none }

/--
Read a number without its sign. Also give the number of characters used. Who passes over a number
looks for its next character and finds none even at the end of the text.
-/
def number (lead : Char) (negative : Bool) (cs : List Char) : Except Defect (Draft α × Nat) :=
  let parts := do
    let (whole, rest) ← wholePart cs
    let (fraction, rest) ← fractionPart rest
    let (exponent, rest) ← exponentPart rest
    return (numberOf lead negative whole fraction exponent, cs.length - rest.length)
  parts.mapError fun fault => { lead, read := fault, passed := some .malformed }

/--
Read the string, number or word that begins with the character `c`. Also give the number of
characters of `rest` that belong to it.
-/
def scalar (c : Char) (rest : List Char) : Except Defect (Draft α × Nat) :=
  match c with
  | '"' => string rest
  | 'n' => word c "ull".toList .null rest
  | 't' => word c "rue".toList (.bool true) rest
  | 'f' => word c "alse".toList (.bool false) rest
  | '-' => number c true rest
  | c =>
    if c.isDigit then do
      let (draft, used) ← number c false (c :: rest)
      return (draft, used - 1)
    else
      .error (.nothing c)

/--
A list or object that is not complete, with what came before the value being read, last first.
-/
inductive Frame (α : Type) where
  | item (before : List (Draft α))
  | member (before : List (Draft α × Draft α)) (key : Draft α)

inductive State (α : Type) where
  /-- A value, or the end of an empty list if `closable` holds. -/
  | value (closable : Bool) (frames : List (Frame α))
  | afterItem (before : List (Draft α)) (frames : List (Frame α))
  /-- A key, or the end of an empty object if `closable` holds. -/
  | key (closable : Bool) (before : List (Draft α × Draft α)) (frames : List (Frame α))
  | colon (before : List (Draft α × Draft α)) (key : Draft α) (frames : List (Frame α))
  | afterMember (before : List (Draft α × Draft α)) (frames : List (Frame α))
  | done (draft : Draft α)

namespace State

omit [Amount α] in
def deliver (value : Draft α) : List (Frame α) → State α
  | [] => done value
  | .item before :: frames => afterItem (value :: before) frames
  | .member before name :: frames => afterMember ((name, value) :: before) frames

omit [Amount α] in
/--
Put a value with a defect where it belongs, and leave everything around it without an end.
-/
def abandon (fault : Fault) (value : Draft α) : List (Frame α) → Draft α
  | [] => value
  | .item before :: frames => abandon fault (.list (value :: before).reverse fault) frames
  | .member before name :: frames =>
    abandon fault (.object ((name, value) :: before).reverse fault) frames

omit [Amount α] in
/--
The draft of a text after which a state cannot go on: it ends there, or another character follows
than the state allows.
-/
def stop (state : State α) (lead : Option Char) : Draft α :=
  let defect := Defect.nothing lead
  match state with
  | value _ frames => abandon defect.read (.broken defect) frames
  | afterItem before frames => abandon defect.read (.list before.reverse defect.read) frames
  | key _ before frames =>
    abandon defect.read (.broken defect) (.member before (.broken defect) :: frames)
  | colon before name frames => abandon defect.read (.broken defect) (.member before name :: frames)
  | afterMember before frames => abandon defect.read (.object before.reverse defect.read) frames
  | done draft => draft

/--
Take the token that begins with the character `c`. Also give the number of characters of `rest` that
belong to it. Where nothing more can be read, give the draft.
-/
def next (state : State α) (c : Char) (rest : List Char) : Except (Draft α) (State α × Nat) :=
  match state, c with
  | value _ frames, '[' => .ok (value true (.item [] :: frames), 0)
  | value _ frames, '\x7b' => .ok (key true [] frames, 0)
  | value true (.item before :: frames), ']' => .ok (deliver (.list before.reverse none) frames, 0)
  | value _ frames, c =>
    match scalar c rest with
    | .ok (draft, used) => .ok (deliver draft frames, used)
    | .error defect => .error (abandon defect.read (.broken defect) frames)
  | afterItem before frames, ',' => .ok (value false (.item before :: frames), 0)
  | afterItem before frames, ']' => .ok (deliver (.list before.reverse none) frames, 0)
  | key _ before frames, '"' =>
    match string rest with
    | .ok (name, used) => .ok (colon before name frames, used)
    | .error defect =>
      .error (abandon defect.read (.broken defect) (.member before (.broken defect) :: frames))
  | key true before frames, '\x7d' => .ok (deliver (.object before.reverse none) frames, 0)
  | colon before name frames, ':' => .ok (value false (.member before name :: frames), 0)
  | afterMember before frames, ',' => .ok (key false before frames, 0)
  | afterMember before frames, '\x7d' => .ok (deliver (.object before.reverse none) frames, 0)
  | state, c => .error (state.stop c)

end State

/--
Run the machine over a text. Also tell whether anything but blanks follows the document.
-/
def run (state : State α) : List Char → Draft α × Bool
  | [] => (state.stop none, false)
  | c :: rest =>
    if isBlank c then
      run state rest
    else
      match state with
      | .done draft => (draft, true)
      | state =>
        match state.next c rest with
        | .ok (state, used) => run state (rest.drop used)
        | .error draft => (draft, false)
termination_by cs => cs.length

end Tariff.Json.Reader

namespace Tariff

/--
Read a text as a draft of a JSON document. Also tell whether anything but blanks follows it.
-/
def Json.read {α : Type} [Amount α] (text : String) : Json.Draft α × Bool :=
  Json.Reader.run (.value false []) text.toList

end Tariff
