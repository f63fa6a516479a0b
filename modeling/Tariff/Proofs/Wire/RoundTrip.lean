import Tariff.Proofs.Wire.Decode
import Tariff.Wire.Model

/-!
This module contains the proof that pricing models come back from their JSON forms. Numbers that are
not finite have no form of their own, so all numbers of the model have to be finite.
-/

namespace Tariff

open Wire

variable {α : Type}

theorem ColumnKind.named?_name (kind : ColumnKind) : named? kind.name = some kind := by
  cases kind <;> rfl

theorem Role.named?_name (role : Role) : named? role.name = some role := by
  cases role <;> rfl

theorem Script.toJson_decodes (script : Script) (allowance : Nat) :
    Decodes (α := α) ofJson allowance script.toJson script := by
  cases script with
  | threePartCurve thresholdKey feeKey overageKey =>
    refine .tagged rfl (by simp) fun allowance => .record (by decide) (.refl _) ?_
    intro parts _ hparts
    rw [hparts.required (by simp) (.string thresholdKey),
      hparts.required (by simp) (.string feeKey),
      hparts.required (by simp) (.string overageKey)]
    rfl
  | graduated rangeKey rateKey =>
    refine .tagged rfl (by simp) fun allowance => .record (by decide) (.refl _) ?_
    intro parts _ hparts
    rw [hparts.required (by simp) (.string rangeKey), hparts.required (by simp) (.string rateKey)]
    rfl

theorem Script.toJson_ne_null (script : Script) : script.toJson (α := α) ≠ .null := by
  cases script <;> nofun

theorem Wire.mem_keys_member? {β : Type} {name key : String} {encode : β → Json α}
    {value : Option β} :
    key ∈ (member? name encode value).map (·.1) ↔ key = name ∧ value.isSome = true := by
  cases value <;> simp [member?]

theorem Wire.keys_member?_sublist {β : Type} (name : String) (encode : β → Json α)
    (value : Option β) : ((member? name encode value).map (·.1)).Sublist [name] := by
  cases value with
  | none => exact List.nil_sublist _
  | some value => exact .refl _

namespace Column

theorem listToJson_eq_map (columns : List Column) :
    listToJson (α := α) columns = columns.map toJson := by
  induction columns with
  | nil => rfl
  | cons column columns ih => rw [listToJson, ih, List.map_cons]

mutual

theorem toJson_decodesWithin (column : Column) {bound allowance : Nat} (h : allowance < bound) :
    Decodes (α := α) (ofJsonWithin bound) allowance column.toJson column := by
  obtain ⟨name, key, kind, subColumns, formula, script, role⟩ := column
  obtain ⟨bound, rfl⟩ : ∃ n, bound = n + 1 := ⟨bound - 1, by omega⟩
  rw [ofJsonWithin, toJson]
  refine .record (by decide) ?_ ?_
  · have hsubColumns : ((if subColumns.isEmpty then [] else
        [("sub_columns", Json.list (α := α) (listToJson subColumns))]).map (·.1)).Sublist
          ["sub_columns"] := by
      split
      · exact List.nil_sublist _
      · exact .refl _
    simp only [List.map_append]
    exact ((((List.Sublist.refl _).append hsubColumns).append (keys_member?_sublist _ _ _)).append
      (keys_member?_sublist _ _ _)).append (keys_member?_sublist _ _ _)
  · intro parts hallowance hparts
    have hname : parts.required "name" Wire.string = .done name :=
      hparts.required (by simp) (.string name)
    have hkey : parts.required "key" Wire.string = .done key :=
      hparts.required (by simp) (.string key)
    have hkind : parts.required "kind" (Wire.oneOf ColumnKind.named?) = .done kind :=
      hparts.required (by simp) (.oneOf kind.named?_name)
    have hsubColumns : parts.withDefault "sub_columns" (Wire.list (ofJsonWithin bound)) [] =
        .done subColumns := by
      cases subColumns with
      | nil => exact hparts.default (by simp [mem_keys_member?]) _ _
      | cons column columns =>
        have hlist : Decodes (α := α) (Wire.list (ofJsonWithin bound)) parts.allowance
            (.list (listToJson (column :: columns))) (column :: columns) := by
          rw [listToJson_eq_map]
          refine .list fun inner hinner => ?_
          exact listToJson_decodesWithin (column :: columns) (by omega)
        exact hparts.withDefault (by simp) hlist []
    have hformula : parts.optional "formula" Wire.string = .done formula := by
      cases formula with
      | none => exact hparts.default (by simp [mem_keys_member?]) _ _
      | some formula =>
        exact hparts.optional (by simp [member?]) (.optional_some (.string formula) nofun)
    have hscript : parts.optional "script" Script.ofJson = .done script := by
      cases script with
      | none => exact hparts.default (by simp [mem_keys_member?]) _ _
      | some script =>
        have hdecodes := Decodes.optional_some (script.toJson_decodes (α := α) parts.allowance)
          script.toJson_ne_null
        exact hparts.optional (by simp [member?]) hdecodes
    have hrole : parts.optional "role" (Wire.oneOf Role.named?) = .done role := by
      cases role with
      | none => exact hparts.default (by simp [mem_keys_member?]) _ _
      | some role =>
        exact hparts.optional (by simp [member?]) (.optional_some (.oneOf role.named?_name) nofun)
    rw [hname, hkey, hkind, hsubColumns, hformula, hscript, hrole]
    rfl

theorem listToJson_decodesWithin (columns : List Column) {bound allowance : Nat}
    (h : allowance < bound) : ∀ column ∈ columns,
      Decodes (α := α) (ofJsonWithin bound) allowance column.toJson column := by
  cases columns with
  | nil => nofun
  | cons column columns =>
    exact List.forall_mem_cons.2
      ⟨toJson_decodesWithin column h, listToJson_decodesWithin columns h⟩

end

theorem toJson_decodes (column : Column) (allowance : Nat) :
    Decodes (α := α) ofJson allowance column.toJson column :=
  column.toJson_decodesWithin (Nat.lt_succ_self allowance)

end Column

section Finite

variable [Amount α]

def Cell.isFinite : Cell α → Bool
  | number value => Amount.isFinite value
  | range r => Amount.isFinite r.low && Amount.isFinite r.high
  | text _ => true

def RateTable.isFinite (table : RateTable α) : Bool :=
  table.rows.all fun row => row.cells.entries.all fun entry => entry.2.isFinite

def PriceModel.isFinite : PriceModel α → Bool
  | fixed fee => Amount.isFinite fee
  | percentage percent min max =>
    Amount.isFinite percent && min.all Amount.isFinite && max.all Amount.isFinite

def Addon.isFinite (addon : Addon α) : Bool :=
  addon.model.all PriceModel.isFinite && addon.customTable.all RateTable.isFinite

def PricingModel.isFinite (model : PricingModel α) : Bool :=
  model.tiers.all (·.table.isFinite) && model.addons.all Addon.isFinite

end Finite

variable [Amount α] {allowance : Nat}

theorem Range.toJson_decodes {r : Range α} (hlow : Amount.isFinite r.low = true)
    (hhigh : Amount.isFinite r.high = true) :
    Decodes Range.ofJson allowance (.object [("low", ofAmount r.low), ("high", ofAmount r.high)])
      r := by
  refine .record (by decide) (.refl _) ?_
  intro parts _ hparts
  rw [hparts.required (by simp) (.amount hlow), hparts.required (by simp) (.amount hhigh)]
  rfl

theorem Cell.toJson_decodes {cell : Cell α} (h : cell.isFinite = true) :
    Decodes ofJson allowance cell.toJson cell := by
  refine .whole fun allowance => ?_
  intro json horder hdepth origin
  cases cell with
  | number value =>
    have hvalue := Decodes.amount h json horder hdepth origin
    simp only [hvalue]
  | range r =>
    obtain ⟨hlow, hhigh⟩ := Bool.and_eq_true_iff.1 h
    have hrange := Range.toJson_decodes hlow hhigh json horder hdepth origin
    obtain ⟨_, members, rfl, _, _⟩ := horder.exists_object
    rw [Json.draft] at *
    simp only [Wire.amount, hrange]
  | text value =>
    cases horder
    rfl

theorem Row.toJson_decodes {row : Row α}
    (h : (row.cells.entries.all fun entry => entry.2.isFinite) = true) :
    Decodes ofJson allowance row.toJson row := by
  have hcells : Decodes (Wire.map Cell.ofJson) allowance row.toJson row.cells :=
    .ofMap fun _ _ entry hentry => Cell.toJson_decodes (List.all_eq_true.1 h entry hentry)
  intro json horder hdepth origin
  rw [ofJson, hcells json horder hdepth origin]
  rfl

theorem RateTable.toJson_decodes {table : RateTable α} (h : table.isFinite = true) :
    Decodes ofJson allowance table.toJson table := by
  refine .record (by decide) (.refl _) ?_
  intro parts _ hparts
  have hcolumns : Decodes (α := α) (Wire.list Column.ofJson) parts.allowance
      (.list (table.columns.map Column.toJson)) table.columns :=
    .list fun inner _ column _ => column.toJson_decodes inner
  have hrows : Decodes (Wire.list Row.ofJson) parts.allowance
      (.list (table.rows.map Row.toJson)) table.rows :=
    .list fun _ _ row hrow => Row.toJson_decodes (List.all_eq_true.1 h row hrow)
  rw [hparts.required (by simp) hcolumns, hparts.required (by simp) hrows]
  rfl

theorem Wire.ofAmount_ne_null {value : α} (h : Amount.isFinite value = true) :
    ofAmount value ≠ .null := by
  rw [ofAmount, if_pos h]
  simp

theorem Wire.ofAmount_decodes_optional {value : Option α} (h : value.all Amount.isFinite = true) :
    Decodes (Wire.optional Wire.amount) allowance (ofOptional ofAmount value) value := by
  apply Decodes.ofOptional
  · rintro x rfl
    exact .amount h
  · rintro x rfl
    exact ofAmount_ne_null h

theorem PriceModel.toJson_decodes {model : PriceModel α} (h : model.isFinite = true) :
    Decodes ofJson allowance model.toJson model := by
  cases model with
  | fixed fee =>
    refine .tagged rfl (by simp) fun allowance => .record (by decide) (.refl _) ?_
    intro parts _ hparts
    rw [hparts.required (by simp) (.amount h)]
    rfl
  | percentage percent min max =>
    simp only [isFinite, Bool.and_eq_true] at h
    obtain ⟨⟨hpercent, hmin⟩, hmax⟩ := h
    refine .tagged rfl (by simp) fun allowance => .record (by decide) (.refl _) ?_
    intro parts _ hparts
    rw [hparts.required (by simp) (.amount hpercent),
      hparts.optional (by simp) (ofAmount_decodes_optional hmin),
      hparts.optional (by simp) (ofAmount_decodes_optional hmax)]
    rfl

theorem Addon.toJson_decodes {addon : Addon α} (h : addon.isFinite = true) :
    Decodes ofJson allowance addon.toJson addon := by
  obtain ⟨hmodel, htable⟩ := Bool.and_eq_true_iff.1 h
  refine .record (by decide) (.refl _) ?_
  intro parts _ hparts
  have hmodel : Decodes (Wire.optional PriceModel.ofJson) parts.allowance
      (ofOptional PriceModel.toJson addon.model) addon.model := by
    apply Decodes.ofOptional
    · intro model hsome
      rw [hsome] at hmodel
      exact PriceModel.toJson_decodes hmodel
    · rintro (_ | _) _ <;> nofun
  have htable : Decodes (Wire.optional RateTable.ofJson) parts.allowance
      (ofOptional RateTable.toJson addon.customTable) addon.customTable := by
    apply Decodes.ofOptional
    · intro table hsome
      rw [hsome] at htable
      exact RateTable.toJson_decodes htable
    · nofun
  rw [hparts.required (by simp) (.string addon.id),
    hparts.withDefault (by simp) (.string addon.name) "",
    hparts.withDefault (by simp) (.bool addon.isCustomMetric) false,
    hparts.optional (by simp) hmodel, hparts.optional (by simp) htable]
  rfl

theorem Tier.toJson_decodes {tier : Tier α} (h : tier.table.isFinite = true) :
    Decodes ofJson allowance tier.toJson tier := by
  refine .record (by decide) (.refl _) ?_
  intro parts _ hparts
  rw [hparts.required (by simp) (.string tier.id),
    hparts.withDefault (by simp) (.string tier.name) "",
    hparts.required (by simp) (RateTable.toJson_decodes h)]
  rfl

namespace PricingModel

theorem toJson_decodes {model : PricingModel α} (h : model.isFinite = true) :
    Decodes ofJson allowance model.toJson model := by
  obtain ⟨htiers, haddons⟩ := Bool.and_eq_true_iff.1 h
  refine .record (by decide) (.refl _) ?_
  intro parts _ hparts
  have htiers : Decodes (Wire.list Tier.ofJson) parts.allowance
      (.list (model.tiers.map Tier.toJson)) model.tiers :=
    .list fun _ _ tier htier => Tier.toJson_decodes (List.all_eq_true.1 htiers tier htier)
  have haddons : Decodes (Wire.list Addon.ofJson) parts.allowance
      (.list (model.addons.map Addon.toJson)) model.addons :=
    .list fun _ _ addon haddon => Addon.toJson_decodes (List.all_eq_true.1 haddons addon haddon)
  rw [hparts.required (by simp) htiers, hparts.withDefault (by simp) haddons []]
  rfl

/--
A pricing model comes back from its form, in whatever order the members of objects are.
-/
theorem fromValue_toJson {model : PricingModel α} (h : model.isFinite = true) {json : Json α}
    (horder : model.toJson.Reordered json) : fromValue ofJson json = .ok model :=
  fromValue_eq_ok (fun _ => toJson_decodes h) horder

/--
A pricing model that has every kind of cell, script and addon, and columns within columns.
-/
def catalogue : PricingModel Float where
  tiers := [{
    id := "plus"
    name := ""
    table := {
      columns := [
        {
          name := "Users"
          key := "users"
          kind := .metricRange
          subColumns := [{
            name := "Seats"
            key := "seats"
            kind := .fee
            subColumns := [{ name := "Guests", key := "guests", kind := .rate }] }] },
        { name := "Rate", key := "rate", kind := .rate },
        { name := "Unit", key := "unit", kind := .output,
          formula := some "lookup(users)\x7brate\x7d", role := some .unitPrice },
        { name := "Total", key := "total", kind := .output,
          script := some (.graduated "users" "rate"), role := some .total }]
      rows := [
        { cells := .ofList [("users", .range ⟨0, 10⟩), ("rate", .number 0.25)] },
        { cells := .ofList [("users", .range ⟨11, 50⟩), ("rate", .text "on request")] }] } }]
  addons := [
    { id := "setup", name := "Setup", isCustomMetric := false, model := some (.fixed 99.5),
      customTable := none },
    { id := "support", name := "Support", isCustomMetric := false,
      model := some (.percentage 12.5 (some 20) none), customTable := none },
    { id := "storage", name := "Storage", isCustomMetric := true, model := none,
      customTable := some {
        columns := [
          { name := "Up to", key := "upto", kind := .threshold },
          { name := "Fee", key := "fee", kind := .fee },
          { name := "Overage", key := "overage", kind := .rate },
          { name := "Price", key := "price", kind := .output,
            script := some (.threePartCurve "upto" "fee" "overage") }]
        rows := [{ cells := .ofList [("upto", .number 100), ("fee", .number 5),
          ("overage", .number 0.1)] }] } }]

theorem fromValue_toJson_catalogue : catalogue.isFinite = true ∧
    fromValue ofJson (.object [("addons", .list (catalogue.addons.map Addon.toJson)),
      ("tiers", .list (catalogue.tiers.map Tier.toJson))]) = .ok catalogue := by
  have hfinite : catalogue.isFinite = true := by decide +kernel
  have horder : catalogue.toJson.Reordered
      (.object [("addons", .list (catalogue.addons.map Addon.toJson)),
        ("tiers", .list (catalogue.tiers.map Tier.toJson))]) :=
    .of_perm (.swap _ _ []) (List.forall₂_same.2 fun _ _ => ⟨rfl, .refl _⟩)
  exact ⟨hfinite, fromValue_toJson hfinite horder⟩

end PricingModel

end Tariff
