import Tariff.Curve
import Tariff.Proofs.WellFormed

/-!
This module contains the order of the ends of a domain: where the rows ascend, no domain ends before
it begins, be it that of a column, of a table or of several tiers.
-/

namespace Tariff

namespace Amount

variable {α : Type} [Amount α] {a b x : α} {xs : List α}

/--
A choice between two values that is in a relation to both makes a choice from a list that is in this
relation to all of them. Both directions of the comparison are such relations.
-/
theorem foldl_related {op : α → α → α} {R : α → α → Prop}
    (hrefl : ∀ {a}, isNaN a = false → R a a)
    (hdefined : ∀ {a b}, R a b → isNaN a = false)
    (htrans : ∀ {a b c}, R a b → R b c → R a c)
    (hop : ∀ {a b}, isNaN a = false → isNaN b = false → R (op a b) a ∧ R (op a b) b)
    (h : ∀ b ∈ a :: xs, isNaN b = false) : ∀ b ∈ a :: xs, R (xs.foldl op a) b := by
  induction xs generalizing a with
  | nil =>
    intro b hb
    rw [List.mem_singleton.1 hb]
    exact hrefl (h a List.mem_cons_self)
  | cons b xs ih =>
    obtain ⟨ha, hb, hxs⟩ : _ ∧ _ ∧ _ := by simpa only [List.forall_mem_cons] using h
    obtain ⟨hleft, hright⟩ := hop ha hb
    have hrest := ih (List.forall_mem_cons.2 ⟨hdefined hleft, hxs⟩)
    simp only [List.forall_mem_cons] at hrest ⊢
    exact ⟨htrans hrest.1 hleft, htrans hrest.1 hright, hrest.2⟩

theorem foldl_mem {β : Type} {op : β → β → β} (hop : ∀ a b, op a b = a ∨ op a b = b)
    (first : β) (rest : List β) : rest.foldl op first ∈ first :: rest := by
  induction rest generalizing first with
  | nil => exact List.mem_singleton_self first
  | cons second rest ih =>
    rw [List.foldl_cons]
    rcases List.mem_cons.1 (ih (op first second)) with heq | hmem
    · rw [heq]
      rcases hop first second with hleft | hright
      · rw [hleft]
        exact List.mem_cons_self
      · rw [hright]
        exact List.mem_cons_of_mem _ List.mem_cons_self
    · exact List.mem_cons_of_mem _ (List.mem_cons_of_mem _ hmem)

theorem lesser_eq_or (a b : α) : lesser a b = a ∨ lesser a b = b := by
  unfold lesser
  split
  · exact .inr rfl
  · exact .inl rfl

theorem greater_eq_or (a b : α) : greater a b = a ∨ greater a b = b := by
  unfold greater
  split
  · exact .inr rfl
  · exact .inl rfl

theorem mem_filter_defined (hx : x ∈ xs) (h : isNaN x = false) : x ∈ xs.filter (!isNaN ·) := by
  simp [List.mem_filter, hx, h]

theorem defined_of_mem_filter : ∀ b ∈ xs.filter (!isNaN ·), isNaN b = false := by
  simp [List.mem_filter]

theorem least_mem (hx : x ∈ xs) (h : isNaN x = false) : least xs ∈ xs := by
  have hmem := mem_filter_defined hx h
  unfold least
  split
  next hnil => simp [hnil] at hmem
  next a as hcons =>
    have hchosen : as.foldl lesser a ∈ xs.filter (!isNaN ·) := by
      rw [hcons]
      exact foldl_mem lesser_eq_or a as
    exact (List.mem_filter.1 hchosen).1

theorem greatest_mem (hx : x ∈ xs) (h : isNaN x = false) : greatest xs ∈ xs := by
  have hmem := mem_filter_defined hx h
  unfold greatest
  split
  next hnil => simp [hnil] at hmem
  next a as hcons =>
    have hchosen : as.foldl greater a ∈ xs.filter (!isNaN ·) := by
      rw [hcons]
      exact foldl_mem greater_eq_or a as
    exact (List.mem_filter.1 hchosen).1

variable [LawfulAmount α]

theorem lesser_le (ha : isNaN a = false) (hb : isNaN b = false) :
    lesser a b ≤ a ∧ lesser a b ≤ b := by
  unfold lesser
  by_cases h : b < a
  · simpa [ha, h] using ⟨le_of_lt h, le_refl hb⟩
  · simpa [ha, h] using ⟨le_refl ha, le_of_not_lt ha hb h⟩

theorem le_greater (ha : isNaN a = false) (hb : isNaN b = false) :
    a ≤ greater a b ∧ b ≤ greater a b := by
  unfold greater
  by_cases h : a < b
  · simpa [ha, h] using ⟨le_of_lt h, le_refl hb⟩
  · simpa [ha, h] using ⟨le_refl ha, le_of_not_lt hb ha h⟩

theorem least_le (hx : x ∈ xs) (h : isNaN x = false) : least xs ≤ x := by
  have hmem := mem_filter_defined hx h
  have hdefined : ∀ b ∈ xs.filter (!isNaN ·), isNaN b = false := defined_of_mem_filter
  unfold least
  split
  next hnil => simp [hnil] at hmem
  next a as hcons =>
    rw [hcons] at hmem hdefined
    exact foldl_related (R := (· ≤ ·)) le_refl (fun h => (LawfulAmount.defined_of_le h).1)
      LawfulAmount.le_trans lesser_le hdefined x hmem

theorem le_greatest (hx : x ∈ xs) (h : isNaN x = false) : x ≤ greatest xs := by
  have hmem := mem_filter_defined hx h
  have hdefined : ∀ b ∈ xs.filter (!isNaN ·), isNaN b = false := defined_of_mem_filter
  unfold greatest
  split
  next hnil => simp [hnil] at hmem
  next a as hcons =>
    rw [hcons] at hmem hdefined
    exact foldl_related (R := fun a b => b ≤ a) le_refl
      (fun h => (LawfulAmount.defined_of_le h).2) (fun hab hbc => LawfulAmount.le_trans hbc hab)
      le_greater hdefined x hmem

theorem samePlace_least (hx : x ∈ xs) (hle : ∀ a ∈ xs, x ≤ a) : SamePlace (least xs) x := by
  have hdefined := (LawfulAmount.defined_of_le (hle x hx)).1
  exact ⟨least_le hx hdefined, hle _ (least_mem hx hdefined)⟩

theorem samePlace_greatest (hx : x ∈ xs) (hle : ∀ a ∈ xs, a ≤ x) : SamePlace (greatest xs) x := by
  have hdefined := (LawfulAmount.defined_of_le (hle x hx)).1
  exact ⟨hle _ (greatest_mem hx hdefined), le_greatest hx hdefined⟩

end Amount

namespace RateTable

variable {α : Type} {table : RateTable α}

theorem exists_column_of_kind? {key : String} {kind : ColumnKind}
    (h : table.kind? key = some kind) :
    ∃ column ∈ table.columns, column.key = key ∧ column.kind = kind := by
  obtain ⟨column, hcolumn, hkind⟩ := Option.map_eq_some_iff.1 h
  exact ⟨column, List.mem_of_find?_eq_some hcolumn, by simpa using List.find?_some hcolumn, hkind⟩

variable [Amount α]

theorem hull?_eq_none_iff {ranges : List (Range α)} : hull? ranges = none ↔ ranges = [] := by
  cases ranges <;> simp [hull?]

variable [LawfulAmount α]

theorem hull_low_le_high {a b : Range α} (ha : a.low ≤ a.high) (hb : b.low ≤ b.high) :
    (hull a b).low ≤ (hull a b).high := by
  obtain ⟨hlowa, hhigha⟩ := LawfulAmount.defined_of_le ha
  obtain ⟨hlowb, hhighb⟩ := LawfulAmount.defined_of_le hb
  have hlow := (Amount.lesser_le hlowa hlowb).1
  have hhigh := (Amount.le_greater hhigha hhighb).1
  exact LawfulAmount.le_trans hlow (LawfulAmount.le_trans ha hhigh)

theorem hull?_low_le_high {ranges : List (Range α)} {range : Range α}
    (hranges : ∀ range ∈ ranges, range.low ≤ range.high) (h : hull? ranges = some range) :
    range.low ≤ range.high := by
  cases ranges with
  | nil => cases h
  | cons first ranges =>
    cases h
    induction ranges generalizing first with
    | nil => exact hranges first List.mem_cons_self
    | cons second ranges ih =>
      obtain ⟨hfirst, hsecond, hrest⟩ : _ ∧ _ ∧ _ := by
        simpa only [List.forall_mem_cons] using hranges
      exact ih (hull first second)
        (List.forall_mem_cons.2 ⟨hull_low_le_high hfirst hsecond, hrest⟩)

theorem domainOf?_low_le_high (hordered : table.Ordered) (hdefined : table.BoundsDefined)
    {key : String} {domain : Range α} (h : table.domainOf? key = some domain) :
    domain.low ≤ domain.high := by
  unfold domainOf? at h
  split at h
  next hkind =>
    obtain ⟨column, hmem, rfl, hrange⟩ := exists_column_of_kind? hkind
    obtain ⟨ranges, hranges, hupright, _⟩ := (hordered column hmem).1 hrange
    have hrows := (forall_mem_of_map_eq hranges).2 hupright
    split at h
    next => cases h
    next hne =>
      cases h
      obtain ⟨range, hmem⟩ := List.exists_mem_of_ne_nil _ hne
      obtain ⟨row, hrow, hcell⟩ := List.mem_filterMap.1 hmem
      have hle := hrows row hrow range hcell
      obtain ⟨hlow, hhigh⟩ := LawfulAmount.defined_of_le hle
      exact LawfulAmount.le_trans (Amount.least_le (List.mem_map_of_mem hmem) hlow)
        (LawfulAmount.le_trans hle (Amount.le_greatest (List.mem_map_of_mem hmem) hhigh))
  next hkind =>
    obtain ⟨column, hmem, rfl, hthreshold⟩ := exists_column_of_kind? hkind
    split at h
    next => cases h
    next hne =>
      cases h
      obtain ⟨bound, hmem'⟩ := List.exists_mem_of_ne_nil _ hne
      obtain ⟨row, hrow, hcell⟩ := List.mem_filterMap.1 hmem'
      have hbound := (hdefined column hmem).2 hthreshold row hrow bound hcell
      exact LawfulAmount.le_trans (Amount.least_le (List.mem_cons_of_mem _ hmem') hbound)
        (Amount.le_greatest hmem' hbound)
  next => cases h

theorem domain?_low_le_high (hvalid : table.validate = .ok ()) (hdefined : table.BoundsDefined)
    {domain : Range α} (h : table.domain? = some domain) : domain.low ≤ domain.high := by
  have hordered : table.Ordered :=
    (checkLookupColumns_iff_ordered hdefined).1 ((validate_eq_ok_iff table).1 hvalid).2.1
  refine hull?_low_le_high ?_ h
  intro range hrange
  obtain ⟨column, _, hdomain⟩ := List.mem_filterMap.1 hrange
  exact domainOf?_low_le_high hordered hdefined hdomain

end RateTable

namespace Tier

variable {α : Type} [Amount α] {tiers : List (Tier α)}

theorem domain?_eq_none_iff : domain? tiers = none ↔ ∀ tier ∈ tiers, tier.table.domain? = none := by
  rw [domain?, RateTable.hull?_eq_none_iff, List.filterMap_eq_nil_iff]

theorem domain?_low_le_high [LawfulAmount α]
    (hvalid : ∀ tier ∈ tiers, tier.table.validate = .ok ())
    (hdefined : ∀ tier ∈ tiers, tier.table.BoundsDefined) {domain : Range α}
    (h : domain? tiers = some domain) : domain.low ≤ domain.high := by
  refine RateTable.hull?_low_le_high ?_ h
  intro range hrange
  obtain ⟨tier, htier, hdomain⟩ := List.mem_filterMap.1 hrange
  exact RateTable.domain?_low_le_high (hvalid tier htier) (hdefined tier htier) hdomain

end Tier

end Tariff
