import Tariff.Json.Reader
import Tariff.KeyMap
import Tariff.Wire.Assembly

/-!
This module contains decoders: what it takes to read a value of some type from a JSON document.

A decoder goes through the draft of a document from front to back and stops at the first fault,
whether that is a defect of the text or a part of another shape than the one asked for. It knows how
many further lists and objects may be nested. In documents read from text this is a limit for the
parts that are decoded. In documents that exist as values the allowance is the depth of the
document.

Some faults of shape are found in text before what is there is known to be a document, and then
count as malformed text.
-/

namespace Tariff.Wire

open Json (Draft)

inductive Origin where
  | value
  | text
deriving Repr, DecidableEq

/--
The fault of something that the decoder has no use for. In text this is noticed before it is known
to be anything.
-/
def Origin.refusal : Origin → Json.Fault
  | value => .shape
  | text => .malformed

/--
Read a `β` from a draft in which `allowance` further lists and objects may be nested.
-/
abbrev Decoder (α β : Type) :=
  (origin : Origin) → (allowance : Nat) → Draft α → Except Json.Fault β

/--
How many lists and objects may be nested in documents that are read from text.
-/
def textAllowance : Nat := 127

variable {α β : Type}

def fromValue (decode : Decoder α β) (json : Json α) : Except Json.Fault β :=
  decode .value json.depth json.draft

def fromDraft (decode : Decoder α β) (draft : Draft α) : Except Json.Fault β :=
  decode .text textAllowance draft

/--
Decode a text. Nothing may follow the document.
-/
def fromText [Amount α] (decode : Decoder α β) (text : String) : Except Json.Fault β := do
  let (draft, followed) := Json.read text
  let value ← fromDraft decode draft
  if followed then .error .malformed else .ok value

def enter {γ : Type} (allowance : Nat) (inner : Nat → Except Json.Fault γ) : Except Json.Fault γ :=
  match allowance with
  | 0 => .error .malformed
  | allowance + 1 => inner allowance

def bool : Decoder α Bool
  | _, _, .bool value => .ok value
  | _, _, draft => .error draft.mismatch

def natural : Decoder α Nat
  | _, _, .natural value => .ok value
  | _, _, draft => .error draft.mismatch

def string : Decoder α String
  | _, _, .string value => .ok value
  | _, _, draft => .error draft.mismatch

def amount [Amount α] : Decoder α α
  | _, _, .natural value => .ok (Amount.ofNat value)
  | _, _, .real value => .ok value
  | _, _, draft => .error draft.mismatch

/--
Decode a value that may be absent. What begins like the word for nothing has to be that word.
-/
def optional (decode : Decoder α β) : Decoder α (Option β)
  | _, _, .null => .ok none
  | _, _, .broken { lead := some 'n', read := fault, .. } => .error fault
  | origin, allowance, draft => do
    let value ← decode origin allowance draft
    return some value

def list (decode : Decoder α β) : Decoder α (List β)
  | origin, allowance, .list items ending =>
    enter allowance fun allowance => do
      let values ← items.mapM (decode origin allowance)
      Draft.close ending values
  | _, _, draft => .error draft.mismatch

/--
Decode a map. Of several members with one key the last counts.
-/
def map (decode : Decoder α β) : Decoder α (KeyMap β)
  | origin, allowance, .object members ending =>
    enter allowance fun allowance => do
      let map ← members.foldlM (fun map member => do
        let name ← member.1.name
        let value ← decode origin allowance member.2
        return map.insert name value) ∅
      Draft.close ending map
  | _, _, draft => .error draft.mismatch

/--
Decode one of a few names. An object with the name as its only key and nothing as its value stands
for the name too.
-/
def oneOf (named : String → Option β) : Decoder α β
  | _, _, .string name => find name
  | origin, allowance, .object members ending =>
    enter allowance fun _ =>
      match members with
      | [] => .error (ending.getD origin.refusal)
      | (key, draft) :: members => do
        let name ← key.name
        let value ← find name
        nothing draft
        if members.isEmpty then Draft.close ending value else .error origin.refusal
  | .value, _, _ => .error .shape
  | .text, _, draft => .error draft.nameFault
where
  find (name : String) : Except Json.Fault β :=
    match named name with
    | some value => .ok value
    | none => .error .shape
  nothing : Draft α → Except Json.Fault Unit
    | .null => .ok ()
    | draft => .error draft.mismatch

/--
Decode a document that is taken in as a whole before it is looked at. All of it has to be in order.
-/
def whole (decode : Decoder α β) : Decoder α β :=
  fun _ allowance draft => do
    let json ← draft.document allowance
    fromValue decode json

structure Parts (α : Type) where
  origin : Origin
  /-- How many lists and objects may be nested in each part. -/
  allowance : Nat
  given : List (String × Nat × Draft α)
  stop : Nat

namespace Parts

/--
The name of the part that a key belongs to. The first name of a declaration is the part's own, the
others are accepted in its place.
-/
def nameOf? (declared : List (List String)) (key : String) : Option String :=
  (declared.find? (·.contains key)).bind List.head?

def ofMembers (declared : List (List String)) (members : List (Draft α × Draft α)) :
    List (String × Nat × Draft α) :=
  members.zipIdx.filterMap fun ((key, draft), place) => do
    let key ← key.name.toOption
    let name ← nameOf? declared key
    return (name, place, draft)

/--
Go through the members of an object from a place on, after members that gave the parts `before`.
Members that belong to no part are passed over, and no part is given twice.
-/
def checkMembers (declared : List (List String)) (ending : Option Json.Fault) :
    (place : Nat) → (before : List String) → List (Draft α × Draft α) → Assembly Unit
  | place, _, [] => .ofExcept place (Draft.close ending ())
  | place, before, (key, draft) :: members =>
    match key.name with
    | .error fault => .failed place fault
    | .ok key =>
      match nameOf? declared key with
      | none =>
        match draft.pass with
        | some fault => .failed place fault
        | none => checkMembers declared ending (place + 1) before members
      | some name =>
        if before.contains name then .failed place .shape
        else checkMembers declared ending (place + 1) (name :: before) members

def ofItems (declared : List (List String)) (items : List (Draft α)) :
    List (String × Nat × Draft α) :=
  (declared.filterMap List.head?).zip (items.zipIdx.map fun (draft, place) => (place, draft))

def checkItems (origin : Origin) (declared : List (List String)) (ending : Option Json.Fault)
    (items : List (Draft α)) : Assembly Unit :=
  if declared.length < items.length then .failed declared.length origin.refusal
  else .ofExcept items.length (Draft.close ending ())

variable (parts : Parts α)

def required (name : String) (decode : Decoder α β) : Assembly β :=
  match parts.given.lookup name with
  | some (place, draft) => .ofExcept place (decode parts.origin parts.allowance draft)
  | none => .failed parts.stop .shape

def withDefault (name : String) (decode : Decoder α β) (value : β) : Assembly β :=
  match parts.given.lookup name with
  | some (place, draft) => .ofExcept place (decode parts.origin parts.allowance draft)
  | none => .done value

def optional (name : String) (decode : Decoder α β) : Assembly (Option β) :=
  parts.withDefault name (Wire.optional decode) none

end Parts

/--
Decode a record from an object, or from a list of its parts in the order of their declaration.
`declared` holds the names of every part.
-/
def record (declared : List (List String)) (build : Parts α → Assembly β) : Decoder α β
  | origin, allowance, .object members ending =>
    enter allowance fun allowance =>
      let given := Parts.ofMembers declared members
      let parts := { origin, allowance, given, stop := members.length + 1 }
      (Parts.checkMembers declared ending 0 [] members *> build parts).toExcept
  | origin, allowance, .list items ending =>
    enter allowance fun allowance =>
      let given := Parts.ofItems declared items
      let parts := { origin, allowance, given, stop := items.length + 1 }
      (Parts.checkItems origin declared ending items *> build parts).toExcept
  | _, _, draft => .error draft.mismatch

/--
Decode one of several records, which the part named `type` tells apart. In a list that part comes
first. The other parts are taken in as a whole.
-/
def tagged (variant : String → Option (Decoder α β)) : Decoder α β
  | origin, allowance, .object members ending =>
    enter allowance fun allowance => do
      let (tag, others) ← split origin allowance none members
      Draft.close ending ()
      match tag with
      | some decode => fromValue decode (.object others)
      | none => .error .shape
  | origin, allowance, .list items ending =>
    enter allowance fun allowance =>
      match items with
      | [] => .error (ending.getD .shape)
      | tag :: items => do
        let decode ← choose origin allowance tag
        let others ← Draft.itemsDocument allowance items
        Draft.close ending ()
        fromValue decode (.list others)
  | _, _, draft => .error draft.mismatch
where
  choose (origin : Origin) (allowance : Nat) (tag : Draft α) :
      Except Json.Fault (Decoder α β) := do
    let name ← string origin allowance tag
    match variant name with
    | some decode => return decode
    | none => .error .shape
  split (origin : Origin) (allowance : Nat) (tag : Option (Decoder α β)) :
      List (Draft α × Draft α) →
        Except Json.Fault (Option (Decoder α β) × List (String × Json α))
    | [] => .ok (tag, [])
    | (key, draft) :: members => do
      let key ← key.name
      if key == "type" then
        match tag with
        | some _ => .error .shape
        | none => do
          let decode ← choose origin allowance draft
          split origin allowance (some decode) members
      else do
        let json ← draft.document allowance
        let (tag, others) ← split origin allowance tag members
        return (tag, (key, json) :: others)

end Tariff.Wire
