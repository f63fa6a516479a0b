/-!
This module contains the reader and the writer of comma-separated records. The reader works on
bytes, because fields may hold bytes that are no text.
-/

namespace Tariff.Csv

abbrev Field := List UInt8

inductive State where
  /-- Before the first field of a record. Line ends are skipped here. -/
  | recordStart
  | fieldStart
  | plain
  | quoted
  /-- After a quote in quotes, which ends the quotes unless another one follows. -/
  | quoteSeen
deriving Repr, DecidableEq

def isLineEnd (b : UInt8) : Bool :=
  b == 10 || b == 13

inductive Action where
  | skip (state : State)
  | keep (state : State)
  | endField
  | endRecord
deriving Repr

/--
What a byte outside quotes does. A quote opens quotes only where `opens` holds.
-/
def outside (opens : Bool) (b : UInt8) : Action :=
  if b == 44 then .endField
  else if isLineEnd b then .endRecord
  else if opens && b == 34 then .skip .quoted
  else .keep .plain

def State.action (state : State) (b : UInt8) : Action :=
  match state with
  | recordStart => if isLineEnd b then .skip .recordStart else outside true b
  | fieldStart => outside true b
  | plain => outside false b
  | quoted => if b == 34 then .skip .quoteSeen else .keep .quoted
  | quoteSeen => if b == 34 then .keep .quoted else outside false b

/--
Read records. `field` and `fields` are the bytes of the field and the fields of the record read so
far, last first.
-/
def readFrom (state : State) (field : Field) (fields : List Field) : List UInt8 → List (List Field)
  | [] => if state = .recordStart then [] else [(field.reverse :: fields).reverse]
  | b :: bytes =>
    match state.action b with
    | .skip state => readFrom state field fields bytes
    | .keep state => readFrom state (b :: field) fields bytes
    | .endField => readFrom .fieldStart [] (field.reverse :: fields) bytes
    | .endRecord => (field.reverse :: fields).reverse :: readFrom .recordStart [] [] bytes

/--
Read records. A byte order mark before the first one is no part of it.
-/
def read (bytes : List UInt8) : List (List Field) :=
  readFrom .recordStart [] [] (if [0xEF, 0xBB, 0xBF].isPrefixOf bytes then bytes.drop 3 else bytes)

def Field.text? (field : Field) : Option String :=
  String.fromUTF8? ⟨field.toArray⟩

def texts? (fields : List Field) : Option (List String) :=
  fields.mapM Field.text?

def needsQuotes (c : Char) : Bool :=
  c == ',' || c == '"' || c == '\n' || c == '\x0d'

def writeField (field : String) : String :=
  let cs := field.toList
  if cs.any needsQuotes then
    "\"" ++ .ofList (cs.flatMap fun c => if c == '"' then ['"', '"'] else [c]) ++ "\""
  else
    field

def writeRecord (fields : List String) : String :=
  ",".intercalate (fields.map writeField) ++ "\n"

def write (records : List (List String)) : String :=
  String.join (records.map writeRecord)

end Tariff.Csv
