import Mathlib.Data.Finset.Max
import Tariff.Proofs.Exact
import Tariff.Proofs.Reading
import Tariff.Proofs.ThresholdLookup

/-!
This module contains what graduated prices amount to in exact arithmetic. The bands of the rows lie
end to end from the low end of the domain on, whether they come from ranges or from thresholds, so
every unit of a quantity is charged once, at the rate of the band it falls into.
-/

namespace Tariff

structure Bracket where
  upTo : ℚ
  rate : ℚ

namespace Bracket

/--
What brackets charge for a quantity if the first of them begins at `start`, and every other one
where the one before ends.
-/
def charges (quantity : ℚ) : (start : ℚ) → List Bracket → ℚ
  | _, [] => 0
  | start, bracket :: brackets =>
    Script.unitsWithin ⟨start, bracket.upTo⟩ quantity * bracket.rate +
      charges quantity bracket.upTo brackets

def Ascend (start : ℚ) (brackets : List Bracket) : Prop :=
  (start :: brackets.map (·.upTo)).Pairwise (· ≤ ·)

variable {start stop quantity quantity' least greatest : ℚ} {bracket : Bracket}
  {brackets : List Bracket}

theorem Ascend.cons_iff :
    Ascend start (bracket :: brackets) ↔
      start ≤ bracket.upTo ∧ (∀ later ∈ brackets, start ≤ later.upTo) ∧
        Ascend bracket.upTo brackets := by
  simp [Ascend, List.pairwise_cons, and_assoc]

theorem unitsWithin_eq :
    Script.unitsWithin ⟨start, stop⟩ quantity = max (min quantity stop - start) 0 := by
  unfold Script.unitsWithin
  rw [Amount.greater_eq_max, Amount.lesser_eq_min, Amount.zero_eq_zero]

theorem unitsWithin_of_le_start (h : quantity ≤ start) :
    Script.unitsWithin ⟨start, stop⟩ quantity = 0 := by
  rw [unitsWithin_eq, max_eq_right]
  linarith [min_le_left quantity stop]

theorem unitsWithin_of_le_stop (hstart : start ≤ quantity) (hstop : quantity ≤ stop) :
    Script.unitsWithin ⟨start, stop⟩ quantity = quantity - start := by
  rw [unitsWithin_eq, min_eq_left hstop, max_eq_left (sub_nonneg.2 hstart)]

theorem unitsWithin_of_stop_le (hle : start ≤ stop) (hstop : stop ≤ quantity) :
    Script.unitsWithin ⟨start, stop⟩ quantity = stop - start := by
  rw [unitsWithin_eq, min_eq_right hstop, max_eq_left (sub_nonneg.2 hle)]

theorem unitsWithin_lesser_zero :
    Script.unitsWithin ⟨Amount.lesser Amount.zero stop, stop⟩ quantity =
      Script.unitsWithin ⟨Amount.zero, stop⟩ quantity := by
  rw [Amount.lesser_eq_min, Amount.zero_eq_zero, unitsWithin_eq, unitsWithin_eq]
  rcases le_total 0 stop with hpos | hneg
  · rw [min_eq_left hpos]
  · -- A band up to a negative threshold has no units, wherever it begins.
    have hle := min_le_right quantity stop
    rw [min_eq_right hneg, max_eq_right (by linarith), max_eq_right (by linarith)]

theorem charges_of_le_start (h : Ascend start brackets) (hle : quantity ≤ start) :
    charges quantity start brackets = 0 := by
  induction brackets generalizing start with
  | nil => rfl
  | cons bracket brackets ih =>
    obtain ⟨hstart, _, hrest⟩ := Ascend.cons_iff.1 h
    rw [charges, unitsWithin_of_le_start hle, ih hrest (hle.trans hstart)]
    ring

theorem charges_take (h : Ascend start brackets) {index : Nat}
    (hbracket : brackets[index]? = some bracket) (hle : quantity ≤ bracket.upTo) :
    charges quantity start (brackets.take (index + 1)) = charges quantity start brackets := by
  induction brackets generalizing start index with
  | nil => cases hbracket
  | cons first brackets ih =>
    obtain ⟨_, _, hrest⟩ := Ascend.cons_iff.1 h
    rw [List.take_succ_cons, charges, charges]
    congr 1
    cases index with
    | zero =>
      cases hbracket
      rw [List.take_zero, charges_of_le_start hrest hle]
      rfl
    | succ index => exact ih hrest hbracket

/--
Between two quantities every unit costs at least the least rate and at most the greatest.
-/
theorem charges_sub_between (h : Ascend start brackets) {index : Nat} {last : Bracket}
    (hlast : brackets[index]? = some last)
    (hrates : ∀ rate ∈ (brackets.map (·.rate)).take (index + 1), least ≤ rate ∧ rate ≤ greatest)
    (hlow : start ≤ quantity) (hle : quantity ≤ quantity') (hhigh : quantity' ≤ last.upTo) :
    least * (quantity' - quantity) ≤
        charges quantity' start brackets - charges quantity start brackets ∧
      charges quantity' start brackets - charges quantity start brackets ≤
        greatest * (quantity' - quantity) := by
  induction brackets generalizing start quantity index with
  | nil => cases hlast
  | cons bracket brackets ih =>
    obtain ⟨hstart, _, hrest⟩ := Ascend.cons_iff.1 h
    rw [List.map_cons, List.take_succ_cons, List.forall_mem_cons] at hrates
    obtain ⟨⟨hleast, hgreatest⟩, hrates⟩ := hrates
    rw [charges, charges]
    rcases le_or_gt quantity' bracket.upTo with hwithin | habove
    · -- Both quantities end in the first bracket.
      have hwithin' := hle.trans hwithin
      rw [unitsWithin_of_le_stop (hlow.trans hle) hwithin, charges_of_le_start hrest hwithin,
        unitsWithin_of_le_stop hlow hwithin', charges_of_le_start hrest hwithin']
      constructor
      · nlinarith
      · nlinarith
    · cases index with
      | zero =>
        cases hlast
        exact absurd hhigh habove.not_ge
      | succ index =>
        rw [unitsWithin_of_stop_le hstart habove.le]
        rcases le_total quantity bracket.upTo with hbelow | hpassed
        · -- The first bracket ends between the quantities, and the others begin there.
          obtain ⟨hlower, hupper⟩ := ih hrest hlast hrates le_rfl habove.le
          rw [charges_of_le_start hrest le_rfl] at hlower hupper
          rw [unitsWithin_of_le_stop hlow hbelow, charges_of_le_start hrest hbelow]
          constructor
          · nlinarith
          · nlinarith
        · obtain ⟨hlower, hupper⟩ := ih hrest hlast hrates hpassed hle
          rw [unitsWithin_of_stop_le hstart hpassed]
          constructor
          · linarith
          · linarith

end Bracket

namespace Script

variable {table : RateTable ℚ} {discounted : Option ℚ} {rangeKey rateKey : String}
  {quantity total start : ℚ} {rows : List (Row ℚ)} {brackets : List Bracket}
  {limit left index : Nat}

/--
A row charges a bracket: its band ends there, and its rate is the one of the bracket.
-/
structure Charges (table : RateTable ℚ) (discounted : Option ℚ) (rangeKey rateKey : String)
    (row : Row ℚ) (bracket : Bracket) : Prop where
  band : ∀ start index,
    band table discounted rangeKey (some start) index row = .ok ⟨start, bracket.upTo⟩
  rate : ∀ index, field table discounted index row rateKey = .ok bracket.rate

theorem charge_eq_ok
    (h : List.Forall₂ (Charges table discounted rangeKey rateKey) rows brackets)
    (hleft : rows.length ≤ left) :
    charge table discounted rangeKey rateKey quantity limit left index (some start) total rows =
      .ok (total + Bracket.charges quantity start brackets) := by
  induction h generalizing left index start total with
  | nil =>
    rw [charge, Bracket.charges, add_zero]
  | @cons row bracket rows brackets hrow _ ih =>
    obtain ⟨left, rfl⟩ := Nat.exists_eq_succ_of_ne_zero (Nat.ne_of_gt (Nat.zero_lt_of_lt hleft))
    rw [charge]
    simp only [step, hrow.band, hrow.rate]
    refine (ih (Nat.le_of_succ_le_succ hleft)).trans ?_
    rw [Bracket.charges, add_assoc]

theorem exists_brackets {ends rates : List ℚ}
    (hends : List.Forall₂ (fun row stop => ∀ discounted start index,
      band table discounted rangeKey (some start) index row = .ok ⟨start, stop⟩) rows ends)
    (hrates : List.Forall₂ (fun row rate => reading? table discounted rateKey row = some rate)
      rows rates) :
    ∃ brackets : List Bracket, brackets.map (·.upTo) = ends ∧ brackets.map (·.rate) = rates ∧
      List.Forall₂ (Charges table discounted rangeKey rateKey) rows brackets := by
  induction hends generalizing rates with
  | nil =>
    cases hrates
    exact ⟨[], rfl, rfl, .nil⟩
  | @cons row stop rows ends hband _ ih =>
    cases hrates with
    | @cons _ rate _ rates hrate hrates =>
      obtain ⟨brackets, rfl, rfl, hcharges⟩ := ih hrates
      exact ⟨⟨stop, rate⟩ :: brackets, rfl, rfl,
        .cons ⟨hband discounted, field_eq_ok hrate⟩ hcharges⟩

theorem band_of_range {α : Type} [Amount α] {table : RateTable α} {discounted start : Option α}
    {row : Row α} {range : Range α} (hkind : table.kind? rangeKey = some .metricRange)
    (hrange : row.range? rangeKey = some range) :
    band table discounted rangeKey start index row =
      .ok ⟨start.getD range.low, range.high⟩ := by
  unfold band
  rw [hkind]
  simp only [hrange]

theorem band_of_threshold {α : Type} [Amount α] {table : RateTable α}
    {discounted start : Option α} {row : Row α} {bound : α}
    (hkind : table.kind? rangeKey = some .threshold)
    (hbound : row.number? rangeKey = some bound) :
    band table discounted rangeKey start index row = .ok ⟨start.getD Amount.zero, bound⟩ := by
  rw [← reading?_of_kind? hkind rfl discounted] at hbound
  unfold band
  rw [hkind]
  dsimp only
  rw [field_eq_ok hbound]
  rfl

end Script

namespace RateTable

/--
The bands of a column lie end to end from the low end of its domain on, and every quantity with a
row lies between the low end and the end of the band of that row.
-/
structure Ladder (table : RateTable ℚ) (key : String) (low : ℚ) (ends : List ℚ) : Prop where
  ascends : (low :: ends).Pairwise (· ≤ ·)
  bands : List.Forall₂ (fun row stop => ∀ discounted start index,
    Script.band table discounted key (some start) index row = .ok ⟨start, stop⟩) table.rows ends
  /-- The first band need not begin at the low end, but it has the same units as if it did. -/
  first : ∀ row ∈ table.rows.head?, ∀ stop ∈ ends.head?, ∃ start,
    (∀ discounted, Script.band table discounted key none 0 row = .ok ⟨start, stop⟩) ∧
      ∀ quantity, Script.unitsWithin ⟨start, stop⟩ quantity =
        Script.unitsWithin ⟨low, stop⟩ quantity
  domain : ∃ high, table.domainOf? key = some ⟨low, high⟩
  found : ∀ mode, ∃ hit, table.resolve key low mode = .ok (some hit)
  within : ∀ quantity mode hit, table.resolve key quantity mode = .ok (some hit) →
    low ≤ quantity ∧ ∃ stop, ends[hit.index]? = some stop ∧ quantity ≤ stop

variable {table : RateTable ℚ} {key : String}

theorem domainOf?_of_rows_eq_nil {α : Type} [Amount α] {table : RateTable α}
    (hrows : table.rows = []) : table.domainOf? key = none := by
  unfold domainOf?
  rw [hrows]
  split
  all_goals rfl

theorem exists_ladder_of_ranges (hvalid : table.validate = .ok ())
    (hkind : table.kind? key = some .metricRange) (hrows : table.rows ≠ []) :
    ∃ low ends, table.Ladder key low ends := by
  have hdefined : table.RangesDefined key := fun _ _ _ _ => ⟨rfl, rfl⟩
  obtain ⟨ranges, hranges, hascending⟩ := exists_ascending hvalid hkind hdefined
  obtain _ | ⟨first, rest⟩ := ranges
  · exact absurd (List.map_eq_nil_iff.1 hranges) hrows
  obtain ⟨row, rows, hrows⟩ := List.exists_cons_of_ne_nil hrows
  have hrange : row.range? key = some first := by
    rw [hrows] at hranges
    exact (List.cons.inj hranges).1
  refine ⟨first.low, (first :: rest).map (·.high), ?_⟩
  constructor
  case ascends => exact hascending.pairwise_ends
  case bands =>
    rw [List.forall₂_map_right_iff]
    apply (forall₂_of_map_eq hranges).imp
    intro row range hrange discounted start index
    exact Script.band_of_range hkind hrange
  case first =>
    intro row' hrow stop hstop
    rw [hrows] at hrow
    cases hrow
    cases hstop
    exact ⟨first.low, fun discounted => Script.band_of_range hkind hrange, fun _ => rfl⟩
  case domain =>
    refine ⟨Amount.greatest ((first :: rest).map (·.high)), ?_⟩
    rw [domainOf?_of_ranges hkind hranges (List.cons_ne_nil first rest),
      Amount.eq_of_samePlace (hascending.samePlace_least_low rfl)]
  case found =>
    intro mode
    have hcovers : covers key first.low row = true :=
      covers_eq_true_iff.2 ⟨first, hrange, le_rfl, hascending.upright first List.mem_cons_self⟩
    have hmem : row ∈ table.rows := by
      rw [hrows]
      exact List.mem_cons_self
    obtain ⟨hit, hresolve, _⟩ := (exists_hit_iff hkind mode).2 ⟨row, hmem, hcovers⟩
    exact ⟨hit, hresolve⟩
  case within =>
    intro quantity mode hit hresolve
    obtain ⟨range, hrange, hlow, hhigh⟩ :=
      covers_eq_true_iff.1 (covers_of_resolve_eq_ok hkind hresolve)
    obtain ⟨range', hcell, hrange'⟩ :=
      exists_getElem?_of_forall₂ (forall₂_of_map_eq hranges) (getElem?_of_resolve_eq_ok hresolve)
    obtain rfl := Option.some.inj (hrange.symm.trans hrange')
    refine ⟨(hascending.low_le (List.mem_of_getElem? hcell)).trans hlow, range.high, ?_, hhigh⟩
    rw [List.getElem?_map, hcell]
    rfl

theorem exists_ladder_of_thresholds (hvalid : table.validate = .ok ())
    (hkind : table.kind? key = some .threshold) (hrows : table.rows ≠ []) :
    ∃ low ends, table.Ladder key low ends := by
  have hdefined : table.ThresholdsDefined key := fun _ _ _ _ => rfl
  obtain ⟨bounds, first, last, h⟩ := exists_hasThresholds hvalid hkind hdefined hrows
  have hlow : Amount.lesser Amount.zero first ≤ first := (Amount.lesser_le rfl rfl).2
  have hfirst : ∀ bound ∈ bounds, first ≤ bound := by
    obtain ⟨rest, rfl⟩ := List.head?_eq_some_iff.1 h.first
    rw [List.forall_mem_cons]
    exact ⟨le_rfl, fun bound hmem => (List.rel_of_pairwise_cons h.ascends hmem).le⟩
  refine ⟨Amount.lesser Amount.zero first, bounds, ?_⟩
  constructor
  case ascends =>
    rw [List.pairwise_cons]
    exact ⟨fun bound hmem => hlow.trans (hfirst bound hmem), h.ascends.imp le_of_lt⟩
  case bands =>
    apply (forall₂_of_map_eq h.rows).imp
    intro row bound hbound discounted start index
    exact Script.band_of_threshold hkind hbound
  case first =>
    intro row hrow stop hstop
    obtain rfl : first = stop := Option.some.inj (h.first.symm.trans hstop)
    obtain ⟨rows, hrows⟩ := List.head?_eq_some_iff.1 hrow
    obtain ⟨bounds, rfl⟩ := List.head?_eq_some_iff.1 h.first
    have hbound : row.number? key = some first := by
      have hcells := h.rows
      rw [hrows] at hcells
      exact (List.cons.inj hcells).1
    refine ⟨Amount.zero, fun discounted => Script.band_of_threshold hkind hbound, ?_⟩
    intro quantity
    exact Bracket.unitsWithin_lesser_zero.symm
  case domain => exact ⟨last, h.domainOf?_eq⟩
  case found =>
    intro mode
    rw [h.exists_resolve_iff mode]
    exact ⟨le_rfl, hlow.trans (hfirst last (List.mem_of_getLast? h.last))⟩
  case within =>
    intro quantity mode hit hresolve
    obtain ⟨_, hle, hbracket⟩ := h.resolve_eq_ok_iff.1 hresolve
    exact ⟨hle, hbracket.upper⟩

theorem exists_ladder (hvalid : table.validate = .ok ()) (hlookup : table.isLookup key = true)
    (hrows : table.rows ≠ []) : ∃ low ends, table.Ladder key low ends := by
  obtain ⟨kind, hkind, hselects⟩ := (Option.any_eq_true _ _).1 hlookup
  cases kind with
  | metricRange => exact exists_ladder_of_ranges hvalid hkind hrows
  | threshold => exact exists_ladder_of_thresholds hvalid hkind hrows
  | _ => cases hselects

end RateTable

namespace Script

variable {table : RateTable ℚ} {discounted : Option ℚ} {rangeKey rateKey : String}
  {quantity low : ℚ} {ends : List ℚ} {brackets : List Bracket} {budget : Nat} {mode : Mode}
  {hit : Hit ℚ}

theorem evaluate_graduated_eq_ok (hladder : table.Ladder rangeKey low ends)
    (hends : brackets.map (·.upTo) = ends)
    (hcharges : List.Forall₂ (Charges table discounted rangeKey rateKey) table.rows brackets)
    (hbudget : table.rows.length ≤ budget)
    (hresolve : table.resolve rangeKey quantity mode = .ok (some hit)) :
    (graduated rangeKey rateKey).evaluate table quantity mode budget discounted =
      .ok (Bracket.charges quantity low (brackets.take (hit.index + 1))) := by
  have hlt := RateTable.index_lt_of_resolve_eq_ok hresolve
  obtain ⟨left, rfl⟩ := Nat.exists_eq_succ_of_ne_zero
    (Nat.ne_of_gt (Nat.lt_of_lt_of_le (Nat.zero_lt_of_lt hlt) hbudget))
  have hfirst := hladder.first
  unfold evaluate
  simp only [hresolve, ok_bind]
  generalize table.rows = rows at *
  subst hends
  cases hcharges with
  | nil => exact absurd hlt (Nat.not_lt_zero _)
  | @cons row bracket rows brackets hrow hrest =>
    obtain ⟨start, hband, hunits⟩ := hfirst row rfl bracket.upTo rfl
    have hleft : (rows.take hit.index).length ≤ left :=
      (List.length_take_le' ..).trans (Nat.le_of_succ_le_succ hbudget)
    rw [List.take_succ_cons, List.take_succ_cons, charge, Bracket.charges]
    simp only [step, hband, hrow.rate]
    refine (charge_eq_ok (List.forall₂_take _ hrest) hleft).trans ?_
    rw [hunits, Amount.zero_eq_zero, zero_add]

/--
The prices of a graduated script are what brackets from the low end of the domain on charge.
-/
structure Graduates (table : RateTable ℚ) (discounted : Option ℚ) (rangeKey rateKey : String)
    (budget : Nat) (low : ℚ) (brackets : List Bracket) : Prop where
  ascends : Bracket.Ascend low brackets
  begins : ∀ domain, table.domainOf? rangeKey = some domain →
    domain.low = low ∧ ∀ mode, ∃ hit, table.resolve rangeKey low mode = .ok (some hit)
  within : ∀ {quantity mode hit}, table.resolve rangeKey quantity mode = .ok (some hit) →
    low ≤ quantity ∧ ∃ bracket, brackets[hit.index]? = some bracket ∧ quantity ≤ bracket.upTo
  prices : ∀ {quantity mode hit}, table.resolve rangeKey quantity mode = .ok (some hit) →
    (graduated rangeKey rateKey).Prices table mode budget discounted quantity hit
      (Bracket.charges quantity low brackets)

variable {rates : List ℚ}

theorem exists_graduates (hvalid : table.validate = .ok ())
    (hscript : (graduated rangeKey rateKey).validate table = .ok ())
    (hrates : table.rows.map (reading? table discounted rateKey) = rates.map some)
    (hbudget : table.rows.length ≤ budget) :
    ∃ low brackets, brackets.map (·.rate) = rates ∧
      Graduates table discounted rangeKey rateKey budget low brackets := by
  by_cases hrows : table.rows = []
  · -- Without rows there is no domain, and no quantity has a price.
    rw [hrows] at hrates
    refine ⟨0, [], (List.map_eq_nil_iff.1 hrates.symm).symm, List.pairwise_singleton _ _,
      ?_, ?_, ?_⟩
    · intro domain hdomain
      rw [RateTable.domainOf?_of_rows_eq_nil hrows] at hdomain
      cases hdomain
    · intro quantity mode hit hresolve
      exact (RateTable.rows_ne_nil_of_resolve_eq_ok hresolve hrows).elim
    · intro quantity mode hit hresolve
      exact (RateTable.rows_ne_nil_of_resolve_eq_ok hresolve hrows).elim
  have hkeys := (table.validate_eq_ok_iff.1 hvalid).1
  have hlookup : table.isLookup rangeKey = true :=
    (RateTable.isLookup_iff hkeys).2 ((validate_eq_ok_iff hkeys _).1 hscript).1
  obtain ⟨low, ends, hladder⟩ := RateTable.exists_ladder hvalid hlookup hrows
  obtain ⟨brackets, rfl, hrates, hcharges⟩ :=
    exists_brackets hladder.bands (forall₂_of_map_eq hrates)
  have hwithin : ∀ quantity mode hit, table.resolve rangeKey quantity mode = .ok (some hit) →
      low ≤ quantity ∧
        ∃ bracket, brackets[hit.index]? = some bracket ∧ quantity ≤ bracket.upTo := by
    intro quantity mode hit hresolve
    obtain ⟨hlow, stop, hstop, hle⟩ := hladder.within quantity mode hit hresolve
    rw [List.getElem?_map] at hstop
    obtain ⟨bracket, hbracket, rfl⟩ := Option.map_eq_some_iff.1 hstop
    exact ⟨hlow, bracket, hbracket, hle⟩
  refine ⟨low, brackets, hrates, hladder.ascends, ?_, fun hresolve => hwithin _ _ _ hresolve, ?_⟩
  · intro domain hdomain
    obtain ⟨high, hladder'⟩ := hladder.domain
    cases hladder'.symm.trans hdomain
    exact ⟨rfl, hladder.found⟩
  · intro quantity mode hit hresolve
    obtain ⟨_, bracket, hbracket, hle⟩ := hwithin quantity mode hit hresolve
    refine ⟨hresolve, ?_⟩
    rw [evaluate_graduated_eq_ok hladder rfl hcharges hbudget hresolve,
      Bracket.charges_take hladder.ascends hbracket hle]

namespace Graduates

variable {quantity' price price' least greatest : ℚ} {hit' : Hit ℚ}

theorem exists_prices_low (h : Graduates table discounted rangeKey rateKey budget low brackets)
    (mode : Mode) {domain : Range ℚ} (hdomain : table.domainOf? rangeKey = some domain) :
    ∃ hit, (graduated rangeKey rateKey).Prices table mode budget discounted domain.low hit 0 := by
  obtain ⟨rfl, hfound⟩ := h.begins domain hdomain
  obtain ⟨hit, hresolve⟩ := hfound mode
  refine ⟨hit, ?_⟩
  rw [← Bracket.charges_of_le_start h.ascends le_rfl]
  exact h.prices hresolve

theorem sub_between (h : Graduates table discounted rangeKey rateKey budget low brackets)
    (hrates : ∀ rate ∈ (brackets.map (·.rate)).take (hit'.index + 1),
      least ≤ rate ∧ rate ≤ greatest)
    (hle : quantity ≤ quantity')
    (hprice : (graduated rangeKey rateKey).Prices table mode budget discounted quantity hit price)
    (hprice' : (graduated rangeKey rateKey).Prices table mode budget discounted quantity' hit'
      price') :
    least * (quantity' - quantity) ≤ price' - price ∧
      price' - price ≤ greatest * (quantity' - quantity) := by
  obtain ⟨hlow, _⟩ := h.within hprice.found
  obtain ⟨_, bracket, hbracket, hhigh⟩ := h.within hprice'.found
  rw [hprice.unique (h.prices hprice.found), hprice'.unique (h.prices hprice'.found)]
  exact Bracket.charges_sub_between h.ascends hbracket hrates hlow hle hhigh

end Graduates

theorem exists_isLeast_isGreatest {xs : List ℚ} (h : xs ≠ []) :
    ∃ least greatest, IsLeast {x | x ∈ xs} least ∧ IsGreatest {x | x ∈ xs} greatest := by
  have hne : xs.toFinset.Nonempty := (List.toFinset_nonempty_iff xs).2 h
  refine ⟨xs.toFinset.min' hne, xs.toFinset.max' hne, ?_, ?_⟩
  · simpa using xs.toFinset.isLeast_min' hne
  · simpa using xs.toFinset.isGreatest_max' hne

/--
Between two quantities every unit is charged at a rate between the least and the greatest of the
rows up to the one of the larger quantity, and the price begins at zero at the low end of the
domain. So one common rate is charged for every unit from there on, and a price never falls if no
rate is negative.
-/
theorem graduated_charges_each_unit_once (hvalid : table.validate = .ok ())
    (hscript : (graduated rangeKey rateKey).validate table = .ok ())
    (hrates : table.rows.map (reading? table discounted rateKey) = rates.map some)
    (hbudget : table.rows.length ≤ budget) :
    (∀ mode quantity hit, table.resolve rangeKey quantity mode = .ok (some hit) →
      ∃ price, (graduated rangeKey rateKey).Prices table mode budget discounted quantity hit
        price) ∧
    (∀ mode domain, table.domainOf? rangeKey = some domain →
      ∃ hit, (graduated rangeKey rateKey).Prices table mode budget discounted domain.low hit 0) ∧
    (∀ mode quantity quantity' hit hit' price price', quantity ≤ quantity' →
      (graduated rangeKey rateKey).Prices table mode budget discounted quantity hit price →
      (graduated rangeKey rateKey).Prices table mode budget discounted quantity' hit' price' →
      (∃ least greatest, IsLeast {rate | rate ∈ rates.take (hit'.index + 1)} least ∧
        IsGreatest {rate | rate ∈ rates.take (hit'.index + 1)} greatest ∧
        least * (quantity' - quantity) ≤ price' - price ∧
        price' - price ≤ greatest * (quantity' - quantity)) ∧
      ((∀ rate ∈ rates, 0 ≤ rate) → price ≤ price')) ∧
    ∀ mode quantity hit price domain rate, table.domainOf? rangeKey = some domain →
      (graduated rangeKey rateKey).Prices table mode budget discounted quantity hit price →
      (∀ other ∈ rates.take (hit.index + 1), other = rate) →
      price = rate * (quantity - domain.low) := by
  obtain ⟨low, brackets, rfl, h⟩ := exists_graduates hvalid hscript hrates hbudget
  refine ⟨?_, ?_, ?_, ?_⟩
  · intro mode quantity hit hresolve
    exact ⟨_, h.prices hresolve⟩
  · intro mode domain hdomain
    exact h.exists_prices_low mode hdomain
  · intro mode quantity quantity' hit hit' price price' hle hprice hprice'
    have hne : (brackets.map (·.rate)).take (hit'.index + 1) ≠ [] := by
      obtain ⟨_, bracket, hbracket, _⟩ := h.within hprice'.found
      cases brackets with
      | nil => cases hbracket
      | cons first rest => exact List.cons_ne_nil _ _
    obtain ⟨least, greatest, hleast, hgreatest⟩ := exists_isLeast_isGreatest hne
    have hbetween := h.sub_between (fun rate hmem => ⟨hleast.2 hmem, hgreatest.2 hmem⟩) hle hprice
      hprice'
    refine ⟨⟨least, greatest, hleast, hgreatest, hbetween⟩, ?_⟩
    intro hnonneg
    have := mul_nonneg (hnonneg least (List.mem_of_mem_take hleast.1)) (sub_nonneg.2 hle)
    linarith [hbetween.1]
  · intro mode quantity hit price domain rate hdomain hprice hcommon
    -- Nothing is charged at the low end, so all of the price lies between the same two bounds.
    obtain ⟨_, hfree⟩ := h.exists_prices_low mode hdomain
    have hlow : domain.low ≤ quantity := by
      rw [(h.begins domain hdomain).1]
      exact (h.within hprice.found).1
    obtain ⟨hlower, hupper⟩ := h.sub_between
      (fun other hmem => ⟨(hcommon other hmem).ge, (hcommon other hmem).le⟩) hlow hfree hprice
    rw [sub_zero] at hlower hupper
    exact le_antisymm hupper hlower

theorem graduated_charges_plans :
    RateTable.plans.validate = .ok () ∧
    (graduated "upto" "overage").validate RateTable.plans = .ok () ∧
    RateTable.plans.rows.map (reading? .plans none "overage") = [4, 2, 1].map some ∧
    RateTable.plans.rows.length ≤ 3 ∧
    (∃ hit, (graduated "upto" "overage").Prices .plans .exact 3 none (-5) hit 0) ∧
    ∃ hit hit', (graduated "upto" "overage").Prices .plans .exact 3 none 0 hit 10 ∧
      (graduated "upto" "overage").Prices .plans .exact 3 none 15 hit' 35 ∧
      ∃ least greatest, IsLeast {rate : ℚ | rate ∈ [4, 2, 1].take (hit'.index + 1)} least ∧
        IsGreatest {rate : ℚ | rate ∈ [4, 2, 1].take (hit'.index + 1)} greatest ∧
        least * (15 - 0) ≤ 35 - 10 ∧ 35 - 10 ≤ greatest * (15 - 0) := by
  have hvalid : RateTable.plans.validate = .ok () := eq_ok_of_isOk (by decide +kernel)
  have hscript : (graduated "upto" "overage").validate RateTable.plans = .ok () :=
    eq_ok_of_isOk (by decide +kernel)
  have hrates : RateTable.plans.rows.map (reading? .plans none "overage") =
      [4, 2, 1].map some := by decide +kernel
  have hbudget : RateTable.plans.rows.length ≤ 3 := by decide
  obtain ⟨_, hlow, hbetween, _⟩ :=
    graduated_charges_each_unit_once hvalid hscript hrates hbudget
  obtain ⟨domain, hdomain, hbegins⟩ := (Option.any_eq_true _ _).1
    (show (RateTable.plans.domainOf? "upto").any (·.low == -5) = true by decide +kernel)
  have hfree := hlow .exact domain hdomain
  rw [eq_of_beq hbegins] at hfree
  obtain ⟨hit, hprice⟩ : ∃ hit,
      (graduated "upto" "overage").Prices .plans .exact 3 none 0 hit 10 :=
    exists_prices (by decide +kernel) (by decide +kernel)
  obtain ⟨hit', hprice'⟩ : ∃ hit,
      (graduated "upto" "overage").Prices .plans .exact 3 none 15 hit 35 :=
    exists_prices (by decide +kernel) (by decide +kernel)
  have hzero : (0 : ℚ) ≤ 15 := by norm_num
  exact ⟨hvalid, hscript, hrates, hbudget, hfree, hit, hit', hprice, hprice',
    (hbetween .exact _ _ _ _ _ _ hzero hprice hprice').1⟩

end Script

end Tariff
