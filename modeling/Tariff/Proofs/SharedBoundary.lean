import Mathlib.Order.Interval.Set.OrdConnected
import Mathlib.Order.Lattice.Nat
import Tariff.Proofs.RangeLookup

/-!
This module contains which row a lookup takes if several ranges contain the quantity. These ranges
are next to each other and share an end, and the second of them is taken. That is the last one
unless there are more than two, and then those between the first and the last contain nothing else.
-/

namespace Tariff

variable {α : Type} [Amount α]

theorem Range.Ascending.samePlace_of_between [LawfulAmount α] {ranges : List (Range α)}
    (h : Ascending ranges) {i j k : Nat} {lower range upper : Range α} {quantity : α}
    (hij : i < j) (hjk : j < k) (hlower : ranges[i]? = some lower)
    (hrange : ranges[j]? = some range) (hupper : ranges[k]? = some upper)
    (hhigh : quantity ≤ lower.high) (hlow : upper.low ≤ quantity) :
    Amount.SamePlace range.low quantity ∧ Amount.SamePlace range.high quantity := by
  have hupright := h.upright range (List.mem_of_getElem? hrange)
  obtain ⟨hi, rfl⟩ := List.getElem?_eq_some_iff.1 hlower
  obtain ⟨hj, rfl⟩ := List.getElem?_eq_some_iff.1 hrange
  obtain ⟨hk, rfl⟩ := List.getElem?_eq_some_iff.1 hupper
  have hbefore : quantity ≤ ranges[j].low :=
    LawfulAmount.le_trans hhigh (List.pairwise_iff_getElem.1 h.apart i j hi hj hij)
  have hafter : ranges[j].high ≤ quantity :=
    LawfulAmount.le_trans (List.pairwise_iff_getElem.1 h.apart j k hj hk hjk) hlow
  exact ⟨⟨LawfulAmount.le_trans hupright hafter, hbefore⟩,
    ⟨hafter, LawfulAmount.le_trans hbefore hupright⟩⟩

namespace RateTable

def covering (table : RateTable α) (key : String) (quantity : α) : Set Nat :=
  {index | table.rows[index]?.any (covers key quantity) = true}

variable {table : RateTable α} {key : String} {quantity : α} {ranges : List (Range α)}

theorem mem_covering_iff (hranges : table.rows.map (·.range? key) = ranges.map some)
    {index : Nat} : index ∈ table.covering key quantity ↔
      ∃ range, ranges[index]? = some range ∧ range.low ≤ quantity ∧ quantity ≤ range.high := by
  show table.rows[index]?.any (covers key quantity) = true ↔ _
  rw [getElem?_any_covers hranges, Option.any_eq_true]
  simp only [Range.contains_eq_true_iff]

theorem lt_length_of_mem_covering {index : Nat} (h : index ∈ table.covering key quantity) :
    index < table.rows.length := by
  obtain ⟨row, hrow, _⟩ := (Option.any_eq_true _ _).1 h
  exact (List.getElem?_eq_some_iff.1 hrow).1

theorem findIdx?_covers_of_isLeast {first : Nat}
    (hfirst : IsLeast (table.covering key quantity) first) :
    table.rows.findIdx? (covers key quantity) = some first := by
  have hlt := lt_length_of_mem_covering hfirst.1
  rw [List.findIdx?_eq_some_iff_getElem]
  refine ⟨hlt, ?_, ?_⟩
  · simpa [covering, List.getElem?_eq_getElem hlt] using hfirst.1
  · intro j hj hcovers
    have hmem : j ∈ table.covering key quantity := by
      simpa [covering, List.getElem?_eq_getElem (hj.trans hlt)] using hcovers
    exact absurd (hfirst.2 hmem) (Nat.not_le_of_lt hj)

/--
The row after the first is looked at, and that is enough to know whether there are more.
-/
theorem rangeIndex?_eq_second (hconnected : (table.covering key quantity).OrdConnected)
    {first last : Nat} (hfirst : IsLeast (table.covering key quantity) first)
    (hlast : IsGreatest (table.covering key quantity) last) :
    rangeIndex? table.rows key quantity = some (min (first + 1) last) := by
  have hle := hfirst.2 hlast.1
  unfold rangeIndex?
  rw [findIdx?_covers_of_isLeast hfirst, Option.map_some, Option.some.injEq]
  split
  next hnext =>
    have : first + 1 ≤ last := hlast.2 hnext
    omega
  next hnext =>
    have : ¬first + 1 ≤ last := by
      intro hbetween
      exact hnext (hconnected.out hfirst.1 hlast.1 ⟨Nat.le_succ first, hbetween⟩)
    omega

theorem exists_first_last (hcovers : ∃ row ∈ table.rows, covers key quantity row = true) :
    ∃ first last, IsLeast (table.covering key quantity) first ∧
      IsGreatest (table.covering key quantity) last := by
  have hnonempty : (table.covering key quantity).Nonempty := by
    obtain ⟨row, hmem, hcovers⟩ := hcovers
    obtain ⟨index, hrow⟩ := List.mem_iff_getElem?.1 hmem
    exact ⟨index, by simpa [covering, hrow] using hcovers⟩
  have hbounded : BddAbove (table.covering key quantity) :=
    ⟨table.rows.length, fun _ hindex => (lt_length_of_mem_covering hindex).le⟩
  exact ⟨sInf (table.covering key quantity), sSup (table.covering key quantity),
    ⟨Nat.sInf_mem hnonempty, fun _ hindex => Nat.sInf_le hindex⟩,
    ⟨Nat.sSup_mem hnonempty hbounded, fun _ hindex => le_csSup hbounded hindex⟩⟩

variable [LawfulAmount α]

theorem exists_range_between (hranges : table.rows.map (·.range? key) = ranges.map some)
    (h : Range.Ascending ranges) {i j k : Nat} (hi : i ∈ table.covering key quantity)
    (hk : k ∈ table.covering key quantity) (hij : i < j) (hjk : j < k) :
    ∃ range, ranges[j]? = some range ∧ Amount.SamePlace range.low quantity ∧
      Amount.SamePlace range.high quantity := by
  obtain ⟨lower, hlower, _, hhigh⟩ := (mem_covering_iff hranges).1 hi
  obtain ⟨upper, hupper, hlow, _⟩ := (mem_covering_iff hranges).1 hk
  have hlt : j < ranges.length := hjk.trans (List.getElem?_eq_some_iff.1 hupper).1
  have hrange := List.getElem?_eq_getElem hlt
  exact ⟨ranges[j], hrange, h.samePlace_of_between hij hjk hlower hrange hupper hhigh hlow⟩

theorem ordConnected_covering (hranges : table.rows.map (·.range? key) = ranges.map some)
    (h : Range.Ascending ranges) : (table.covering key quantity).OrdConnected := by
  constructor
  rintro i hi k hk j ⟨hij, hjk⟩
  obtain rfl | hij := hij.eq_or_lt
  · exact hi
  obtain rfl | hjk := hjk.eq_or_lt
  · exact hk
  obtain ⟨range, hrange, hlow, hhigh⟩ := exists_range_between hranges h hi hk hij hjk
  exact (mem_covering_iff hranges).2 ⟨range, hrange, hlow.1, hhigh.2⟩

/--
The second of the rows that contain a quantity is taken, or the only one. It is the last of them if
and only if there are no more than two.
-/
theorem resolve_range_second (hvalid : table.validate = .ok ())
    (hkind : table.kind? key = some .metricRange) (hdefined : table.RangesDefined key)
    (hcovers : ∃ row ∈ table.rows, covers key quantity row = true) :
    ∃ first last hit, IsLeast (table.covering key quantity) first ∧
      IsGreatest (table.covering key quantity) last ∧
      (∀ mode, table.resolve key quantity mode = .ok (some hit)) ∧
      hit.index = min (first + 1) last ∧
      (IsGreatest (table.covering key quantity) hit.index ↔ last ≤ first + 1) ∧
      ∀ i, first < i → i < last → ∃ row range, table.rows[i]? = some row ∧
        row.range? key = some range ∧ Amount.SamePlace range.low quantity ∧
        Amount.SamePlace range.high quantity := by
  obtain ⟨ranges, hranges, hascending⟩ := exists_ascending hvalid hkind hdefined
  obtain ⟨first, last, hfirst, hlast⟩ := exists_first_last hcovers
  have hindex := rangeIndex?_eq_second (ordConnected_covering hranges hascending) hfirst hlast
  obtain ⟨row, _, _, hresolve⟩ := resolve_of_rangeIndex? hkind hindex
  refine ⟨first, last, _, hfirst, hlast, hresolve, rfl, ?_, ?_⟩
  · constructor
    · intro hgreatest
      have := hgreatest.unique hlast
      dsimp only at this
      omega
    · intro hle
      have hlast' : min (first + 1) last = last := by omega
      rw [hlast']
      exact hlast
  · intro i hfirsti hilast
    obtain ⟨range, hrange, hlow, hhigh⟩ :=
      exists_range_between hranges hascending hfirst.1 hlast.1 hfirsti hilast
    have hcell : table.rows[i]?.map (·.range? key) = some (some range) := by
      rw [← List.getElem?_map, hranges, List.getElem?_map, hrange]
      rfl
    obtain ⟨row, hrow, hcell⟩ := Option.map_eq_some_iff.1 hcell
    exact ⟨row, range, hrow, hcell, hlow, hhigh⟩

theorem resolve_quotas_last :
    ∃ hit, (∀ mode, quotas.resolve "usage" 10 mode = .ok (some hit)) ∧ hit.index = 1 ∧
      IsGreatest (quotas.covering "usage" 10) hit.index := by
  have hvalid : quotas.validate = .ok () := eq_ok_of_isOk (by decide +kernel)
  have hkind : quotas.kind? "usage" = some .metricRange := by decide +kernel
  have hdefined : quotas.RangesDefined "usage" := by decide +kernel
  have hcovers : ∃ row ∈ quotas.rows, covers "usage" (10 : Float) row = true := by decide +kernel
  obtain ⟨first, last, hit, hfirst, hlast, hresolve, hindex, hgreatest, _⟩ :=
    resolve_range_second hvalid hkind hdefined hcovers
  have hzero : first ≤ 0 := hfirst.2 (show quotas.rows[0]?.any _ = true by decide +kernel)
  have hone : 1 ≤ last := hlast.2 (show quotas.rows[1]?.any _ = true by decide +kernel)
  have htwo : last < 2 := lt_length_of_mem_covering hlast.1
  exact ⟨hit, hresolve, by omega, hgreatest.2 (by omega)⟩

/--
A table with a range of a single quantity, at which the ranges before and after it meet.
-/
def pinched : RateTable Float where
  columns := [usage]
  rows := [Row.insert ∅ "usage" (.range ⟨0, 10⟩), Row.insert ∅ "usage" (.range ⟨10, 10⟩),
    Row.insert ∅ "usage" (.range ⟨10, 20⟩)]

/--
The range of the single quantity is taken, though the range after it contains the quantity too.
-/
theorem resolve_pinched_not_last :
    pinched.validate = .ok () ∧ pinched.kind? "usage" = some .metricRange ∧
    pinched.RangesDefined "usage" ∧
    ∃ hit, pinched.resolve "usage" 10 .exact = .ok (some hit) ∧
      (hit.row.range? "usage").any (·.high == 10) = true ∧
      (∃ later > hit.index, later ∈ pinched.covering "usage" 10 ∧
        ((pinched.rows[later]?.bind (·.range? "usage")).any (·.low == 10)) = true) ∧
      ¬IsGreatest (pinched.covering "usage" 10) hit.index := by
  obtain ⟨hit?, hresolve, hhit⟩ := exists_ok_of_any
    (p := fun hit? : Option (Hit Float) => hit?.any fun hit =>
      hit.index == 1 && (hit.row.range? "usage").any (·.high == 10))
    (x := pinched.resolve "usage" 10 .exact) (by decide +kernel)
  obtain ⟨hit, rfl, hfound⟩ := (Option.any_eq_true _ _).1 hhit
  rw [Bool.and_eq_true, beq_iff_eq] at hfound
  have hlater : 2 ∈ pinched.covering "usage" 10 :=
    show pinched.rows[2]?.any _ = true by decide +kernel
  refine ⟨eq_ok_of_isOk (by decide +kernel), by decide +kernel, by decide +kernel, hit, hresolve,
    hfound.2, ⟨2, by omega, hlater, by decide +kernel⟩, ?_⟩
  intro hgreatest
  have := hgreatest.2 hlater
  omega

end RateTable

end Tariff
