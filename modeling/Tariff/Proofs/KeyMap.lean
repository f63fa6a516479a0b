import Mathlib.Tactic.ByContra
import Tariff.KeyMap
import Tariff.Table.Row

/-!
This module contains what the answer of a map to a key is, for maps that are built from others. A
map is determined by its answers.
-/

namespace Tariff.KeyMap

variable {β γ : Type}

theorem lookup_eq_none_of_lt {key : String} {entries : List (String × β)}
    (h : ∀ entry ∈ entries, key < entry.1) : entries.lookup key = none := by
  induction entries with
  | nil => rfl
  | cons head rest ih =>
    have hne : key ≠ head.1 := by
      intro heq
      exact String.lt_irrefl _ (heq ▸ h head List.mem_cons_self)
    rw [lookup_cons, if_neg hne]
    exact ih fun entry hentry => h entry (List.mem_cons_of_mem _ hentry)

theorem eq_of_lookup_eq {as bs : List (String × β)} (has : as.Pairwise (·.1 < ·.1))
    (hbs : bs.Pairwise (·.1 < ·.1)) (h : ∀ key, as.lookup key = bs.lookup key) : as = bs := by
  induction as generalizing bs with
  | nil =>
    cases bs with
    | nil => rfl
    | cons b bs =>
      have := h b.1
      simp [lookup_cons] at this
  | cons a as ih =>
    have ⟨hhead, hrest⟩ := List.pairwise_cons.1 has
    cases bs with
    | nil =>
      have := h a.1
      simp [lookup_cons] at this
    | cons b bs =>
      have ⟨hhead', hrest'⟩ := List.pairwise_cons.1 hbs
      -- A key below both heads is not bound, so neither head comes before the other.
      have hkey : a.1 = b.1 := by
        by_contra hne
        have ha := h a.1
        have hb := h b.1
        simp only [lookup_cons, ↓reduceIte, hne, Ne.symm hne] at ha hb
        by_cases hlt : a.1 < b.1
        · have : bs.lookup a.1 = none := by
            apply lookup_eq_none_of_lt
            intro entry hentry
            exact String.lt_trans hlt (hhead' entry hentry)
          simp [this] at ha
        · have hgt : b.1 < a.1 := Std.lt_of_le_of_ne (String.not_lt.1 hlt) (Ne.symm hne)
          have : as.lookup b.1 = none := by
            apply lookup_eq_none_of_lt
            intro entry hentry
            exact String.lt_trans hgt (hhead entry hentry)
          simp [this] at hb
      have hvalue : a.2 = b.2 := by
        have := h a.1
        simpa [lookup_cons, hkey] using this
      have htails : as = bs := by
        apply ih hrest hrest'
        intro key
        have := h key
        simp only [lookup_cons, hkey] at this
        split at this
        next heq =>
          rw [heq, lookup_eq_none_of_lt hhead', ← hkey, lookup_eq_none_of_lt hhead]
        next => exact this
      rw [htails, Prod.ext hkey hvalue]

theorem ext_find? {a b : KeyMap β} (h : ∀ key, a.find? key = b.find? key) : a = b := by
  have hentries := eq_of_lookup_eq a.ascending b.ascending h
  cases a
  cases b
  simp_all

theorem find?_foldl_insert (keys : List String) (value : β) (map : KeyMap β) (key : String) :
    (keys.foldl (fun map key => map.insert key value) map).find? key =
      if key ∈ keys then some value else map.find? key := by
  induction keys generalizing map with
  | nil => simp
  | cons head rest ih =>
    rw [List.foldl_cons, ih, find?_insert]
    by_cases hrest : key ∈ rest
    · simp [hrest]
    · simp [hrest]

theorem find?_insertIfNew (map : KeyMap β) (key : String) (value : β) (other : String) :
    (map.insertIfNew key value).find? other =
      (map.find? other).or (if other = key then some value else none) := by
  unfold insertIfNew contains
  split
  next hsome =>
    split
    next heq =>
      obtain ⟨x, hx⟩ := Option.isSome_iff_exists.1 hsome
      simp [heq, hx]
    next => simp
  next hnone =>
    rw [find?_insert]
    split
    next heq =>
      rw [heq]
      simp_all
    next => simp

@[simp]
theorem find?_orElse (map fallback : KeyMap β) (key : String) :
    (map.orElse fallback).find? key = (map.find? key).or (fallback.find? key) := by
  unfold orElse
  show _ = (map.find? key).or (fallback.entries.lookup key)
  generalize fallback.entries = entries
  induction entries generalizing map with
  | nil => simp
  | cons head rest ih =>
    rw [List.foldl_cons, ih, find?_insertIfNew, lookup_cons, Option.or_assoc]
    split <;> simp

@[simp]
theorem find?_filterMap (f : β → Option γ) (map : KeyMap β) (key : String) :
    (map.filterMap f).find? key = (map.find? key).bind f := by
  obtain ⟨entries, ascending⟩ := map
  show (entries.filterMap fun entry => (f entry.2).map (entry.1, ·)).lookup key =
    (entries.lookup key).bind f
  induction entries with
  | nil => rfl
  | cons head rest ih =>
    have ⟨hhead, hrest⟩ := List.pairwise_cons.1 ascending
    rw [lookup_cons]
    cases hf : f head.2 with
    | some x =>
      simp only [List.filterMap_cons, hf, Option.map_some, lookup_cons]
      split
      · simp [hf]
      · exact ih hrest
    | none =>
      simp only [List.filterMap_cons, hf, Option.map_none]
      split
      next heq =>
        -- The entry that is dropped was the only one with its key.
        rw [ih hrest, heq, lookup_eq_none_of_lt hhead]
        simp [hf]
      next => exact ih hrest

theorem foldlM_insert_eq_ok {ε : Type} {f : β → Except ε γ} {key : β → String} {xs : List β}
    (hkeys : (xs.map key).Nodup) {map result : KeyMap γ}
    (h : xs.foldlM (fun map x => do
      let value ← f x
      return map.insert (key x) value) map = .ok result) :
    (∀ x ∈ xs, ∃ value, f x = .ok value) ∧
    ∀ name value, result.find? name = some value ↔
      (∃ x ∈ xs, key x = name ∧ f x = .ok value) ∨
      (∀ x ∈ xs, key x ≠ name) ∧ map.find? name = some value := by
  induction xs generalizing map with
  | nil =>
    cases h
    simp
  | cons x xs ih =>
    rw [List.map_cons, List.nodup_cons] at hkeys
    cases hx : f x with
    | error fault =>
      rw [List.foldlM_cons, hx] at h
      cases h
    | ok first =>
      rw [List.foldlM_cons, hx] at h
      obtain ⟨hok, hfind⟩ := ih hkeys.2 h
      refine ⟨List.forall_mem_cons.2 ⟨⟨first, hx⟩, hok⟩, ?_⟩
      intro name value
      rw [hfind, find?_insert, List.forall_mem_cons]
      simp only [List.mem_cons, exists_eq_or_imp, hx, Except.ok.injEq]
      -- The keys are distinct, so what is put in first is not replaced later.
      by_cases hname : name = key x
      · subst hname
        have hothers : ∀ y ∈ xs, key y ≠ key x := by
          intro y hy heq
          exact hkeys.1 (heq ▸ List.mem_map_of_mem hy)
        have hnone : ¬∃ y ∈ xs, key y = key x ∧ f y = .ok value := by
          rintro ⟨y, hy, heq, _⟩
          exact hothers y hy heq
        simpa [hnone] using fun _ => hothers
      · simp [hname, Ne.symm hname]

theorem find?_ofList_map_eq_some_iff {f : β → γ} {key : β → String} {xs : List β}
    (hkeys : (xs.map key).Nodup) {name : String} {value : γ} :
    (ofList (xs.map fun x => (key x, f x))).find? name = some value ↔
      ∃ x ∈ xs, key x = name ∧ f x = value := by
  have h : xs.foldlM (m := Except Unit) (fun map x => do
      let value ← .ok (f x)
      return map.insert (key x) value) ∅ = .ok (ofList (xs.map fun x => (key x, f x))) := by
    unfold ofList
    rw [List.foldl_map]
    exact List.foldlM_pure
  simp [(foldlM_insert_eq_ok hkeys h).2 name value]

theorem mem_entries_iff {entries : List (String × β)} (h : entries.Pairwise (·.1 < ·.1))
    {key : String} {value : β} : (key, value) ∈ entries ↔ entries.lookup key = some value := by
  induction entries with
  | nil => simp
  | cons head rest ih =>
    have ⟨hhead, hrest⟩ := List.pairwise_cons.1 h
    rw [lookup_cons, List.mem_cons, ih hrest]
    split
    next heq =>
      rw [heq, lookup_eq_none_of_lt hhead]
      simp [Prod.ext_iff, eq_comm]
    next hne => simp [Prod.ext_iff, hne]

/--
A map is made up of its entries, in whatever order they are bound.
-/
theorem ofList_eq_of_perm {map : KeyMap β} {entries : List (String × β)}
    (h : entries.Perm map.entries) : ofList entries = map := by
  have hascending : (map.entries.map (·.1)).Nodup :=
    List.pairwise_map.2 (map.ascending.imp String.ne_of_lt)
  have hkeys : (entries.map (·.1)).Nodup := (h.map _).nodup_iff.2 hascending
  have hentries : entries.map (fun entry => (entry.1, entry.2)) = entries := List.map_id _
  apply ext_find?
  intro key
  ext value
  rw [← hentries, find?_ofList_map_eq_some_iff hkeys]
  unfold find?
  rw [← mem_entries_iff map.ascending, ← h.mem_iff]
  simp

theorem mem_keys_iff {map : KeyMap β} {key : String} :
    key ∈ map.keys ↔ ∃ value, map.find? key = some value := by
  unfold keys find?
  simp only [← mem_entries_iff map.ascending, List.mem_map, Prod.exists, exists_and_right,
    exists_eq_right]

theorem mem_keys_ofList {pairs : List (String × β)} {key : String} :
    key ∈ (ofList pairs).keys ↔ ∃ pair ∈ pairs, pair.1 = key := by
  have hfold : ∀ map : KeyMap β,
      (∃ value, (pairs.foldl (fun map pair => map.insert pair.1 pair.2) map).find? key =
        some value) ↔ (∃ value, map.find? key = some value) ∨ ∃ pair ∈ pairs, pair.1 = key := by
    induction pairs with
    | nil => simp
    | cons pair pairs ih =>
      intro map
      rw [List.foldl_cons, ih, find?_insert]
      by_cases hkey : key = pair.1
      · simp [hkey]
      · simp [hkey, Ne.symm hkey]
  rw [mem_keys_iff, ofList, hfold]
  simp

theorem mem_values_iff {map : KeyMap β} {value : β} :
    value ∈ map.values ↔ ∃ key, map.find? key = some value := by
  unfold values find?
  simp only [← mem_entries_iff map.ascending, List.mem_map, Prod.exists, exists_eq_right]

end Tariff.KeyMap

namespace Tariff.Row

variable {α : Type}

@[simp]
theorem find?_numbers (row : Row α) (key : String) : row.numbers.find? key = row.number? key := by
  unfold numbers number?
  rw [KeyMap.find?_filterMap]
  cases row.cells.find? key with
  | none => rfl
  | some cell => cases cell <;> rfl

end Tariff.Row
