/-!
This module contains JSON documents. Objects keep the order and the repetitions of their members,
and whole numbers are kept apart from other numbers, because readers of a document tell them apart.
-/

namespace Tariff

inductive Json.Fault where
  | incomplete
  /-- The text is no document, or holds something that cannot be represented. -/
  | malformed
  | shape
deriving Repr, DecidableEq

inductive Json (α : Type) where
  | null
  | bool (value : Bool)
  | natural (value : Nat)
  | real (value : α)
  | string (value : String)
  | list (items : List (Json α))
  | object (members : List (String × Json α))
deriving Inhabited, Repr

namespace Json

variable {α : Type}

mutual

/--
How many lists and objects are nested in each other at most.
-/
def depth : Json α → Nat
  | null | bool _ | natural _ | real _ | string _ => 0
  | list items => itemsDepth items + 1
  | object members => membersDepth members + 1

def itemsDepth : List (Json α) → Nat
  | [] => 0
  | item :: items => max item.depth (itemsDepth items)

def membersDepth : List (String × Json α) → Nat
  | [] => 0
  | (_, value) :: members => max value.depth (membersDepth members)

end

/--
The value of a member. A document that is no object has no members.
-/
def member? (json : Json α) (key : String) : Option (Json α) :=
  match json with
  | object members => members.lookup key
  | _ => none

end Json

end Tariff
