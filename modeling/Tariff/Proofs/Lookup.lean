import Tariff.Lookup
import Tariff.Proofs.Fault

/-!
This module contains what a lookup answers, in terms of the row that is found. The row does not
depend on what the price is computed for.
-/

namespace Tariff.RateTable

variable {α : Type}

theorem mem_columns_of_column? {table : RateTable α} {key : String} {column : Column}
    (h : table.column? key = some column) : column ∈ table.columns ∧ column.key = key := by
  unfold column? at h
  refine ⟨List.mem_of_find?_eq_some h, ?_⟩
  simpa using List.find?_some h

theorem column?_eq_some_of_mem {table : RateTable α} (hkeys : (table.columns.map (·.key)).Nodup)
    {column : Column} (hmem : column ∈ table.columns) :
    table.column? column.key = some column := by
  unfold column?
  generalize table.columns = columns at *
  induction columns with
  | nil => cases hmem
  | cons head rest ih =>
    rw [List.map_cons, List.nodup_cons] at hkeys
    rcases List.mem_cons.1 hmem with rfl | hmem
    · simp
    · have hne : head.key ≠ column.key := by
        intro heq
        exact hkeys.1 (heq ▸ List.mem_map_of_mem hmem)
      simp only [List.find?_cons, beq_eq_false_iff_ne.2 hne]
      exact ih hkeys.2 hmem

theorem nodup_keys_outputColumns {table : RateTable α} (hkeys : (table.columns.map (·.key)).Nodup) :
    (table.outputColumns.map (·.key)).Nodup := by
  unfold outputColumns
  exact (List.filter_sublist.map _).nodup hkeys

theorem filter_column?_of_kind? {table : RateTable α} {key : String} {kind : ColumnKind}
    (hkind : table.kind? key = some kind) (hlookup : kind.isLookup = true) :
    ∃ column, (table.column? key).filter (·.kind.isLookup) = some column ∧ column.kind = kind := by
  obtain ⟨column, hcolumn, rfl⟩ := Option.map_eq_some_iff.1 hkind
  exact ⟨column, Option.filter_eq_some_iff.2 ⟨hcolumn, hlookup⟩, rfl⟩

variable [Amount α]

/--
The row that prices a quantity of a column of some kind, with its position.
-/
def hit? (table : RateTable α) (kind : ColumnKind) (key : String) (quantity : α) :
    Option (Hit α) := do
  let index ← table.index? kind key (table.lookupDomain key) quantity
  let row ← table.rows[index]?
  return { index := index, row := row }

theorem resolve_eq_notLookup {table : RateTable α} {key : String}
    (hcolumn : (table.column? key).filter (·.kind.isLookup) = none) (quantity : α) (mode : Mode) :
    table.resolve key quantity mode = .error (.expression (.notLookup key)) := by
  unfold resolve
  rw [hcolumn]

theorem exists_column_of_resolve_eq_ok {table : RateTable α} {key : String} {quantity : α}
    {mode : Mode} {hit? : Option (Hit α)} (h : table.resolve key quantity mode = .ok hit?) :
    ∃ column, table.column? key = some column ∧ column.kind.isLookup = true := by
  cases hcolumn : (table.column? key).filter (·.kind.isLookup) with
  | none =>
    rw [resolve_eq_notLookup hcolumn] at h
    cases h
  | some column => exact ⟨column, Option.filter_eq_some_iff.1 hcolumn⟩

theorem resolve_eq_hit {table : RateTable α} {key : String} {column : Column} {quantity : α}
    {hit : Hit α} (hcolumn : (table.column? key).filter (·.kind.isLookup) = some column)
    (hhit : table.hit? column.kind key quantity = some hit) (mode : Mode) :
    table.resolve key quantity mode = .ok (some hit) := by
  unfold hit? at hhit
  unfold resolve
  simp only [hcolumn, hhit]

theorem resolve_curve_eq_none {table : RateTable α} {key : String} {column : Column} {quantity : α}
    (hcolumn : (table.column? key).filter (·.kind.isLookup) = some column)
    (hhit : table.hit? column.kind key quantity = none) :
    table.resolve key quantity .curve = .ok none := by
  unfold hit? at hhit
  unfold resolve
  simp only [hcolumn, hhit]

theorem resolve_exact_eq_miss {table : RateTable α} {key : String} {column : Column} {quantity : α}
    (hcolumn : (table.column? key).filter (·.kind.isLookup) = some column)
    (hhit : table.hit? column.kind key quantity = none) :
    table.resolve key quantity .exact =
      .error (table.missFault column.kind key (table.lookupDomain key) quantity) := by
  unfold hit? at hhit
  unfold resolve
  simp only [hcolumn, hhit]

theorem getElem?_of_hit?_eq_some {table : RateTable α} {kind : ColumnKind} {key : String}
    {quantity : α} {hit : Hit α} (h : table.hit? kind key quantity = some hit) :
    table.index? kind key (table.lookupDomain key) quantity = some hit.index ∧
      table.rows[hit.index]? = some hit.row := by
  unfold hit? at h
  simp only [Option.bind_eq_bind, Option.bind_eq_some_iff, Option.pure_def, Option.some.injEq] at h
  obtain ⟨index, hindex, row, hrow, rfl⟩ := h
  exact ⟨hindex, hrow⟩

theorem hit?_eq_some {table : RateTable α} {kind : ColumnKind} {key : String} {quantity : α}
    {hit : Hit α}
    (hindex : table.index? kind key (table.lookupDomain key) quantity = some hit.index)
    (hrow : table.rows[hit.index]? = some hit.row) : table.hit? kind key quantity = some hit := by
  unfold hit?
  simp [hindex, hrow]

theorem exists_hit?_of_resolve_eq_ok {table : RateTable α} {key : String} {quantity : α}
    {mode : Mode} {hit : Hit α} (h : table.resolve key quantity mode = .ok (some hit)) :
    ∃ column, (table.column? key).filter (·.kind.isLookup) = some column ∧
      table.hit? column.kind key quantity = some hit := by
  obtain ⟨column, hcolumn, hkind⟩ := exists_column_of_resolve_eq_ok h
  have hlookup : (table.column? key).filter (·.kind.isLookup) = some column :=
    Option.filter_eq_some_iff.2 ⟨hcolumn, hkind⟩
  refine ⟨column, hlookup, ?_⟩
  cases hhit : table.hit? column.kind key quantity with
  | some found =>
    rw [resolve_eq_hit hlookup hhit] at h
    cases h
    rfl
  | none =>
    cases mode with
    | curve =>
      rw [resolve_curve_eq_none hlookup hhit] at h
      cases h
    | exact =>
      rw [resolve_exact_eq_miss hlookup hhit] at h
      cases h

theorem hit?_of_resolve_eq_ok {table : RateTable α} {key : String} {kind : ColumnKind}
    {quantity : α} {mode : Mode} {hit : Hit α} (hkind : table.kind? key = some kind)
    (h : table.resolve key quantity mode = .ok (some hit)) :
    table.hit? kind key quantity = some hit := by
  obtain ⟨column, hcolumn, hhit⟩ := exists_hit?_of_resolve_eq_ok h
  unfold kind? at hkind
  rw [(Option.filter_eq_some_iff.1 hcolumn).1] at hkind
  cases hkind
  exact hhit

theorem resolve_congr_mode {table : RateTable α} {key : String} {quantity : α} {mode : Mode}
    {hit : Hit α} (h : table.resolve key quantity mode = .ok (some hit)) (mode' : Mode) :
    table.resolve key quantity mode' = .ok (some hit) := by
  obtain ⟨column, hcolumn, hhit⟩ := exists_hit?_of_resolve_eq_ok h
  exact resolve_eq_hit hcolumn hhit mode'

theorem getElem?_of_resolve_eq_ok {table : RateTable α} {key : String} {quantity : α} {mode : Mode}
    {hit : Hit α} (h : table.resolve key quantity mode = .ok (some hit)) :
    table.rows[hit.index]? = some hit.row := by
  obtain ⟨column, _, hhit⟩ := exists_hit?_of_resolve_eq_ok h
  exact (getElem?_of_hit?_eq_some hhit).2

theorem index_lt_of_resolve_eq_ok {table : RateTable α} {key : String} {quantity : α} {mode : Mode}
    {hit : Hit α} (h : table.resolve key quantity mode = .ok (some hit)) :
    hit.index < table.rows.length :=
  (List.getElem?_eq_some_iff.1 (getElem?_of_resolve_eq_ok h)).1

theorem rows_ne_nil_of_resolve_eq_ok {table : RateTable α} {key : String} {quantity : α}
    {mode : Mode} {hit : Hit α} (h : table.resolve key quantity mode = .ok (some hit)) :
    table.rows ≠ [] :=
  List.ne_nil_of_length_pos (Nat.zero_lt_of_lt (index_lt_of_resolve_eq_ok h))

theorem isRangeMiss_missFault (table : RateTable α) (kind : ColumnKind) (key : String)
    (domain : Range α) (quantity : α) :
    (table.missFault kind key domain quantity).isRangeMiss = true := by
  unfold missFault
  split
  · rfl
  · rfl

theorem resolve_agrees {table table' : RateTable α} {key : String} {quantity : α}
    (hcolumn : table'.column? key = table.column? key)
    (hhit : ∀ column hit, table.column? key = some column → column.kind.isLookup = true →
      table.hit? column.kind key quantity = some hit →
      table'.hit? column.kind key quantity = some hit)
    (mode : Mode) :
    AgreesUnlessMiss (table.resolve key quantity .exact) (table'.resolve key quantity mode) := by
  -- Both lookups are of a column that selects rows, or neither is.
  cases hlookup : (table.column? key).filter (·.kind.isLookup) with
  | none =>
    have hlookup' := hlookup
    rw [← hcolumn] at hlookup'
    rw [resolve_eq_notLookup hlookup, resolve_eq_notLookup hlookup']
    exact .refl _
  | some column =>
    have hlookup' := hlookup
    rw [← hcolumn] at hlookup'
    obtain ⟨hfound, hkind⟩ := Option.filter_eq_some_iff.1 hlookup
    cases hrow : table.hit? column.kind key quantity with
    | none =>
      rw [resolve_exact_eq_miss hlookup hrow]
      exact .miss (isRangeMiss_missFault ..) _
    | some hit =>
      rw [resolve_eq_hit hlookup hrow]
      rw [resolve_eq_hit hlookup' (hhit column hit hfound hkind hrow)]
      exact .refl _

end Tariff.RateTable
