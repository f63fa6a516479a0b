/-!
This module contains maps from text keys. A map keeps its entries in ascending key order, so two
maps that answer every key alike are equal and every listing of a map is in key order.
-/

namespace Tariff

/--
A finite map from keys to values, listed in ascending key order.
-/
structure KeyMap (β : Type) where
  entries : List (String × β)
  ascending : entries.Pairwise (·.1 < ·.1)

namespace KeyMap

variable {β γ : Type}

def empty : KeyMap β where
  entries := []
  ascending := .nil

instance : EmptyCollection (KeyMap β) := ⟨empty⟩

instance : Inhabited (KeyMap β) := ⟨empty⟩

/--
Put an entry at its place in an ascending list, in place of an entry with the same key.
-/
def place (key : String) (value : β) : List (String × β) → List (String × β)
  | [] => [(key, value)]
  | entry :: rest =>
    if key < entry.1 then (key, value) :: entry :: rest
    else if key = entry.1 then (key, value) :: rest
    else entry :: place key value rest

theorem mem_place {key : String} {value : β} {entries : List (String × β)} {entry : String × β}
    (h : entry ∈ place key value entries) : entry = (key, value) ∨ entry ∈ entries := by
  induction entries with
  | nil => simpa [place] using h
  | cons head rest ih =>
    simp only [place] at h
    split at h
    · simpa using h
    · split at h
      · rcases List.mem_cons.1 h with h | h
        · exact .inl h
        · exact .inr (List.mem_cons_of_mem _ h)
      · rcases List.mem_cons.1 h with h | h
        · exact .inr (h ▸ List.mem_cons_self)
        · exact (ih h).imp_right (List.mem_cons_of_mem _)

theorem place_ascending {key : String} {value : β} {entries : List (String × β)}
    (h : entries.Pairwise (·.1 < ·.1)) : (place key value entries).Pairwise (·.1 < ·.1) := by
  induction entries with
  | nil => simp [place]
  | cons head rest ih =>
    have ⟨hhead, hrest⟩ := List.pairwise_cons.1 h
    simp only [place]
    split
    next hlt =>
      refine List.pairwise_cons.2 ⟨fun entry hentry => ?_, h⟩
      rcases List.mem_cons.1 hentry with rfl | hentry
      · exact hlt
      · exact String.lt_trans hlt (hhead entry hentry)
    next hnlt =>
      split
      next heq => exact List.pairwise_cons.2 ⟨fun entry hentry => heq ▸ hhead entry hentry, hrest⟩
      next hne =>
        refine List.pairwise_cons.2 ⟨fun entry hentry => ?_, ih hrest⟩
        rcases mem_place hentry with rfl | hentry
        · exact Std.lt_of_le_of_ne (String.not_lt.1 hnlt) (Ne.symm hne)
        · exact hhead entry hentry

def insert (map : KeyMap β) (key : String) (value : β) : KeyMap β where
  entries := place key value map.entries
  ascending := place_ascending map.ascending

def find? (map : KeyMap β) (key : String) : Option β :=
  map.entries.lookup key

@[simp]
theorem find?_empty (key : String) : (∅ : KeyMap β).find? key = none := rfl

theorem lookup_cons (entry : String × β) (rest : List (String × β)) (key : String) :
    (entry :: rest).lookup key = if key = entry.1 then some entry.2 else rest.lookup key := by
  rw [List.lookup_cons]
  by_cases h : key = entry.1
  · simp [h]
  · have : (key == entry.1) = false := by simpa using h
    simp [h, this]

theorem lookup_place (key : String) (value : β) (entries : List (String × β)) (other : String) :
    (place key value entries).lookup other =
      if other = key then some value else entries.lookup other := by
  induction entries with
  | nil => simp [place, lookup_cons]
  | cons head rest ih =>
    simp only [place]
    split
    · rw [lookup_cons]
    · split
      next heq =>
        rw [lookup_cons, lookup_cons, ← heq]
        split <;> rfl
      next hne =>
        rw [lookup_cons, lookup_cons, ih]
        by_cases h : other = key
        · simp [h, hne]
        · simp [h]

@[simp]
theorem find?_insert (map : KeyMap β) (key : String) (value : β) (other : String) :
    (map.insert key value).find? other = if other = key then some value else map.find? other :=
  lookup_place key value map.entries other

def contains (map : KeyMap β) (key : String) : Bool :=
  (map.find? key).isSome

def keys (map : KeyMap β) : List String :=
  map.entries.map (·.1)

def values (map : KeyMap β) : List β :=
  map.entries.map (·.2)

/--
Bind every pair of a list, a later pair replacing an earlier one with the same key.
-/
def ofList (pairs : List (String × β)) : KeyMap β :=
  pairs.foldl (fun map pair => map.insert pair.1 pair.2) ∅

def insertIfNew (map : KeyMap β) (key : String) (value : β) : KeyMap β :=
  if map.contains key then map else map.insert key value

/--
Add the entries of a second map whose keys the first leaves unbound.
-/
def orElse (map fallback : KeyMap β) : KeyMap β :=
  fallback.entries.foldl (fun map entry => map.insertIfNew entry.1 entry.2) map

def filterMap (f : β → Option γ) (map : KeyMap β) : KeyMap γ where
  entries := map.entries.filterMap fun entry => (f entry.2).map (entry.1, ·)
  ascending := by
    refine List.Pairwise.filterMap _ (fun a b hab c hc d hd => ?_) map.ascending
    simp only [Option.map_eq_some_iff] at hc hd
    obtain ⟨_, _, rfl⟩ := hc
    obtain ⟨_, _, rfl⟩ := hd
    exact hab

def map (f : β → γ) (map : KeyMap β) : KeyMap γ :=
  map.filterMap (some <| f ·)

instance [BEq β] : BEq (KeyMap β) where
  beq a b := a.entries == b.entries

end KeyMap

end Tariff
