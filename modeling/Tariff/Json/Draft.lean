import Tariff.Json.Basic

/-!
This module contains drafts of JSON documents. A draft is what reading a text gives: the document as
far as the text goes, with every defect left in its place. Who goes through a draft from front to
back meets the defect that comes first in the text.

A document without defects is its own draft: `document_draft` gives it back, and `pass_draft` says
that nothing in it stops who passes over it.
-/

namespace Tariff.Json

/--
What stands in a text where nothing can be read.
-/
structure Defect where
  /-- The character it begins with, unless the text ends there. -/
  lead : Option Char
  read : Fault
  /--
  The fault of passing over it. Strings whose escapes do not name characters and numbers that are
  too large cannot be read, but they have an end and can be passed over.
  -/
  passed : Option Fault
deriving Repr, DecidableEq

def Defect.nothing (lead : Option Char) : Defect :=
  let fault := if lead.isNone then .incomplete else .malformed
  { lead, read := fault, passed := some fault }

/--
A draft of a JSON document. Lists and objects have an ending, which is a fault if neither a further
part nor the closing bracket follows. The first component of a member is what stands in the place of
its key.
-/
inductive Draft (α : Type) where
  | null
  | bool (value : Bool)
  | natural (value : Nat)
  | real (value : α)
  | string (value : String)
  | list (items : List (Draft α)) (ending : Option Fault)
  | object (members : List (Draft α × Draft α)) (ending : Option Fault)
  | broken (defect : Defect)
deriving Inhabited, Repr

mutual

def draft {α : Type} : Json α → Draft α
  | null => .null
  | bool value => .bool value
  | natural value => .natural value
  | real value => .real value
  | string value => .string value
  | list items => .list (itemsDraft items) none
  | object members => .object (membersDraft members) none

def itemsDraft {α : Type} : List (Json α) → List (Draft α)
  | [] => []
  | item :: items => item.draft :: itemsDraft items

def membersDraft {α : Type} : List (String × Json α) → List (Draft α × Draft α)
  | [] => []
  | (key, value) :: members => (.string key, value.draft) :: membersDraft members

end

namespace Draft

variable {α : Type}

def close {β : Type} (ending : Option Fault) (value : β) : Except Fault β :=
  match ending with
  | some fault => .error fault
  | none => .ok value

/--
The fault of a draft that is not what is asked for. A string, number or word is read before it is
refused; of a list or an object the opening bracket is enough.
-/
def mismatch : Draft α → Fault
  | broken defect => defect.read
  | _ => .shape

/--
The fault of a draft that stands where a quoted name has to stand. Only what begins with a quote is
read.
-/
def nameFault : Draft α → Fault
  | broken defect => if defect.lead.all (· == '"') then defect.read else .malformed
  | _ => .malformed

def name : Draft α → Except Fault String
  | string value => .ok value
  | draft => .error draft.nameFault

def passName : Draft α → Option Fault
  | string _ => none
  | broken defect => if defect.lead.all (· == '"') then defect.passed else some .malformed
  | _ => some .malformed

mutual

def pass : Draft α → Option Fault
  | null | bool _ | natural _ | real _ | string _ => none
  | list items ending => (passItems items).or ending
  | object members ending => (passMembers members).or ending
  | broken defect => defect.passed

def passItems : List (Draft α) → Option Fault
  | [] => none
  | item :: items => item.pass.or (passItems items)

def passMembers : List (Draft α × Draft α) → Option Fault
  | [] => none
  | (key, value) :: members => (key.passName.or value.pass).or (passMembers members)

end

mutual

/--
The document of a draft in which `allowance` lists and objects may be nested. All of it has to be in
order.
-/
def document (allowance : Nat) : Draft α → Except Fault (Json α)
  | null => .ok .null
  | bool value => .ok (.bool value)
  | natural value => .ok (.natural value)
  | real value => .ok (.real value)
  | string value => .ok (.string value)
  | list items ending =>
    match allowance with
    | 0 => .error .malformed
    | allowance + 1 => do
      let items ← itemsDocument allowance items
      close ending (.list items)
  | object members ending =>
    match allowance with
    | 0 => .error .malformed
    | allowance + 1 => do
      let members ← membersDocument allowance members
      close ending (.object members)
  | broken defect => .error defect.read

def itemsDocument (allowance : Nat) : List (Draft α) → Except Fault (List (Json α))
  | [] => .ok []
  | item :: items => do
    let item ← item.document allowance
    let items ← itemsDocument allowance items
    return item :: items

def membersDocument (allowance : Nat) :
    List (Draft α × Draft α) → Except Fault (List (String × Json α))
  | [] => .ok []
  | (key, value) :: members => do
    let key ← key.name
    let value ← value.document allowance
    let members ← membersDocument allowance members
    return (key, value) :: members

end

mutual

/--
A document comes back from its draft.
-/
theorem document_draft (json : Json α) (allowance : Nat) (h : json.depth ≤ allowance) :
    json.draft.document allowance = .ok json := by
  cases json with
  | null | bool | natural | real | string => simp [draft, document]
  | list items =>
    cases allowance with
    | zero => simp [depth] at h
    | succ allowance =>
      have := itemsDocument_itemsDraft items allowance (by simpa [depth] using h)
      simp [draft, document, this, close, bind, Except.bind]
  | object members =>
    cases allowance with
    | zero => simp [depth] at h
    | succ allowance =>
      have := membersDocument_membersDraft members allowance (by simpa [depth] using h)
      simp [draft, document, this, close, bind, Except.bind]

theorem itemsDocument_itemsDraft (items : List (Json α)) (allowance : Nat)
    (h : itemsDepth items ≤ allowance) :
    itemsDocument allowance (itemsDraft items) = .ok items := by
  cases items with
  | nil => simp [itemsDraft, itemsDocument]
  | cons item items =>
    simp only [itemsDepth] at h
    have first := document_draft item allowance (by omega)
    have others := itemsDocument_itemsDraft items allowance (by omega)
    simp [itemsDraft, itemsDocument, first, others, bind, Except.bind, pure, Except.pure]

theorem membersDocument_membersDraft (members : List (String × Json α)) (allowance : Nat)
    (h : membersDepth members ≤ allowance) :
    membersDocument allowance (membersDraft members) = .ok members := by
  cases members with
  | nil => simp [membersDraft, membersDocument]
  | cons member members =>
    obtain ⟨key, value⟩ := member
    simp only [membersDepth] at h
    have first := document_draft value allowance (by omega)
    have others := membersDocument_membersDraft members allowance (by omega)
    simp [membersDraft, membersDocument, name, first, others, bind, Except.bind, pure, Except.pure]

end

mutual

theorem pass_draft (json : Json α) : json.draft.pass = none := by
  cases json with
  | null | bool | natural | real | string => simp [draft, pass]
  | list items => simp [draft, pass, passItems_itemsDraft items]
  | object members => simp [draft, pass, passMembers_membersDraft members]

theorem passItems_itemsDraft (items : List (Json α)) : passItems (itemsDraft items) = none := by
  cases items with
  | nil => simp [itemsDraft, passItems]
  | cons item items =>
    simp [itemsDraft, passItems, pass_draft item, passItems_itemsDraft items]

theorem passMembers_membersDraft (members : List (String × Json α)) :
    passMembers (membersDraft members) = none := by
  cases members with
  | nil => simp [membersDraft, passMembers]
  | cons member members =>
    obtain ⟨key, value⟩ := member
    simp [membersDraft, passMembers, passName, pass_draft value, passMembers_membersDraft members]

end

end Draft

end Tariff.Json
