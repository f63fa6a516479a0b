import Mathlib.Data.List.Perm.Basic
import Tariff.Proofs.Formula.Soundness
import Tariff.Proofs.KeyMap
import Tariff.Wire.Table

/-!
This module contains which values the decoders give for documents that are written in full. The
order of the members of an object does not matter to any of them, so everything here is said about a
document and about all documents that have the members of their objects in another order.
-/

namespace Tariff.Json

variable {α : Type}

/--
Two documents are the same but for the order of the members of their objects.
-/
inductive Reordered : Json α → Json α → Prop where
  | refl (json : Json α) : Reordered json json
  | list {items items' : List (Json α)} (h : List.Forall₂ Reordered items items') :
    Reordered (.list items) (.list items')
  | object {members reordered members' : List (String × Json α)} (hperm : members.Perm reordered)
    (hkeys : reordered.map (·.1) = members'.map (·.1))
    (h : List.Forall₂ Reordered (reordered.map (·.2)) (members'.map (·.2))) :
    Reordered (.object members) (.object members')

/--
Members have the same keys, and their values are the same but for the order of members.
-/
def SameMembers (members members' : List (String × Json α)) : Prop :=
  List.Forall₂ (fun member member' => member.1 = member'.1 ∧ Reordered member.2 member'.2)
    members members'

theorem sameMembers_iff {members members' : List (String × Json α)} :
    SameMembers members members' ↔ members.map (·.1) = members'.map (·.1) ∧
      List.Forall₂ Reordered (members.map (·.2)) (members'.map (·.2)) := by
  unfold SameMembers
  induction members generalizing members' with
  | nil => cases members' <;> simp
  | cons member members ih =>
    cases members' with
    | nil => simp
    | cons member' members' =>
      rw [List.forall₂_cons, ih]
      simp only [List.map_cons, List.cons.injEq, List.forall₂_cons]
      tauto

theorem SameMembers.exists_of_mem {members members' : List (String × Json α)}
    (h : SameMembers members members') {name : String} {json : Json α}
    (hmember : (name, json) ∈ members) : ∃ json', (name, json') ∈ members' ∧
      Reordered json json' := by
  unfold SameMembers at h
  induction h with
  | nil => cases hmember
  | @cons _ member' _ members' hfirst _ ih =>
    rcases List.mem_cons.1 hmember with rfl | hmember
    · obtain ⟨_, json'⟩ := member'
      obtain ⟨rfl, hjson⟩ := hfirst
      exact ⟨json', List.mem_cons_self, hjson⟩
    · obtain ⟨json', hmember', hjson⟩ := ih hmember
      exact ⟨json', List.mem_cons_of_mem _ hmember', hjson⟩

theorem SameMembers.exists_append {before after members : List (String × Json α)}
    (h : SameMembers (before ++ after) members) :
    ∃ before' after', members = before' ++ after' ∧ SameMembers before before' ∧
      SameMembers after after' := by
  refine ⟨members.take before.length, members.drop before.length, ?_, ?_, ?_⟩
  · exact (List.take_append_drop _ _).symm
  · simpa [SameMembers] using List.forall₂_take before.length h
  · simpa [SameMembers] using List.forall₂_drop before.length h

theorem SameMembers.exists_cons {member : String × Json α}
    {members members' : List (String × Json α)} (h : SameMembers (member :: members) members') :
    ∃ first rest, members' = first :: rest ∧ (member.1 = first.1 ∧ Reordered member.2 first.2) ∧
      SameMembers members rest := by
  unfold SameMembers at h
  cases h with
  | cons hfirst hrest => exact ⟨_, _, rfl, hfirst, hrest⟩

namespace Reordered

variable {json : Json α}

theorem exists_list {items : List (Json α)} (h : Reordered (.list items) json) :
    ∃ items', json = .list items' ∧ List.Forall₂ Reordered items items' := by
  cases h with
  | refl => exact ⟨items, rfl, List.forall₂_same.2 fun _ _ => .refl _⟩
  | list h => exact ⟨_, rfl, h⟩

theorem exists_object {members : List (String × Json α)} (h : Reordered (.object members) json) :
    ∃ reordered members', json = .object members' ∧ members.Perm reordered ∧
      SameMembers reordered members' := by
  cases h with
  | refl => exact ⟨members, members, rfl, .refl _, List.forall₂_same.2 fun _ _ => ⟨rfl, .refl _⟩⟩
  | object hperm hkeys h => exact ⟨_, _, rfl, hperm, sameMembers_iff.2 ⟨hkeys, h⟩⟩

theorem of_perm {members reordered members' : List (String × Json α)}
    (hperm : members.Perm reordered) (h : SameMembers reordered members') :
    Reordered (.object members) (.object members') :=
  .object hperm (sameMembers_iff.1 h).1 (sameMembers_iff.1 h).2

theorem ne_null {json json' : Json α} (h : Reordered json json') (hnull : json ≠ .null) :
    json' ≠ .null := by
  cases h with
  | refl => exact hnull
  | list | object => nofun

end Reordered

theorem depth_le_itemsDepth {item : Json α} {items : List (Json α)} (h : item ∈ items) :
    item.depth ≤ itemsDepth items := by
  induction items with
  | nil => cases h
  | cons first items ih =>
    rw [itemsDepth]
    rcases List.mem_cons.1 h with rfl | h
    · exact Nat.le_max_left _ _
    · exact Nat.le_trans (ih h) (Nat.le_max_right _ _)

theorem depth_le_membersDepth {member : String × Json α} {members : List (String × Json α)}
    (h : member ∈ members) : member.2.depth ≤ membersDepth members := by
  induction members with
  | nil => cases h
  | cons first members ih =>
    rw [membersDepth]
    rcases List.mem_cons.1 h with rfl | h
    · exact Nat.le_max_left _ _
    · exact Nat.le_trans (ih h) (Nat.le_max_right _ _)

end Tariff.Json

namespace Tariff.Wire

open Json (draft itemsDraft membersDraft Reordered)

variable {α β : Type} {allowance : Nat} {json : Json α} {decode : Decoder α β} {value : β}

/--
With some allowance a decoder reads a value from a document, in whatever order its members are.
-/
def Decodes (decode : Decoder α β) (allowance : Nat) (json : Json α) (value : β) : Prop :=
  ∀ json', json.Reordered json' → json'.depth ≤ allowance → ∀ origin,
    decode origin allowance json'.draft = .ok value

theorem fromValue_eq_ok (h : ∀ allowance, Decodes decode allowance json value) {json' : Json α}
    (horder : json.Reordered json') : fromValue decode json' = .ok value :=
  h json'.depth json' horder (Nat.le_refl _) .value

namespace Decodes

theorem bool (value : Bool) : Decodes (α := α) Wire.bool allowance (.bool value) value := by
  intro json' horder _ origin
  cases horder
  rfl

theorem string (value : String) : Decodes (α := α) Wire.string allowance (.string value) value := by
  intro json' horder _ origin
  cases horder
  rfl

theorem amount [Amount α] {value : α} (h : Amount.isFinite value = true) :
    Decodes Wire.amount allowance (ofAmount value) value := by
  intro json' horder _ origin
  rw [ofAmount, if_pos h] at horder
  cases horder
  rfl

theorem oneOf {named : String → Option β} {name : String} (h : named name = some value) :
    Decodes (α := α) (Wire.oneOf named) allowance (.string name) value := by
  intro json' horder _ origin
  cases horder
  simp [draft, Wire.oneOf, oneOf.find, h]

theorem optional_none (decode : Decoder α β) :
    Decodes (Wire.optional decode) allowance .null none := by
  intro json' horder _ origin
  cases horder
  rfl

theorem optional_draft (hnull : json ≠ .null) {origin : Origin} :
    Wire.optional decode origin allowance json.draft =
      decode origin allowance json.draft >>= fun value => pure (some value) := by
  cases json with
  | null => exact absurd rfl hnull
  | _ => rfl

theorem optional_some (h : Decodes decode allowance json value) (hnull : json ≠ .null) :
    Decodes (Wire.optional decode) allowance json (some value) := by
  intro json' horder hdepth origin
  rw [optional_draft (horder.ne_null hnull), h json' horder hdepth origin]
  rfl

theorem ofOptional {encode : β → Json α} {value : Option β}
    (h : ∀ b, value = some b → Decodes decode allowance (encode b) b)
    (hnull : ∀ b, value = some b → encode b ≠ .null) :
    Decodes (Wire.optional decode) allowance (Wire.ofOptional encode value) value := by
  cases value with
  | none => exact optional_none decode
  | some value => exact optional_some (h value rfl) (hnull value rfl)

theorem whole (h : ∀ allowance, Decodes decode allowance json value) :
    Decodes (Wire.whole decode) allowance json value := by
  intro json' horder hdepth origin
  rw [Wire.whole, Json.Draft.document_draft json' allowance hdepth]
  exact fromValue_eq_ok h horder

theorem mapM_itemsDraft {encode : β → Json α} {values : List β} {items : List (Json α)}
    (horder : List.Forall₂ (fun value item => Reordered (encode value) item) values items)
    (hdepth : ∀ item ∈ items, item.depth ≤ allowance)
    (h : ∀ value ∈ values, Decodes decode allowance (encode value) value) (origin : Origin) :
    (itemsDraft items).mapM (decode origin allowance) = .ok values := by
  induction horder with
  | nil => rfl
  | cons hfirst _ ih =>
    rw [List.forall_mem_cons] at hdepth h
    rw [itemsDraft, List.mapM_cons, h.1 _ hfirst hdepth.1 origin, ih hdepth.2 h.2]
    rfl

theorem list {encode : β → Json α} {values : List β}
    (h : ∀ inner, inner < allowance → ∀ value ∈ values, Decodes decode inner (encode value) value) :
    Decodes (Wire.list decode) allowance (.list (values.map encode)) values := by
  intro json' horder hdepth origin
  obtain ⟨items, rfl, hitems⟩ := horder.exists_list
  rw [List.forall₂_map_left_iff] at hitems
  rw [Json.depth] at hdepth
  cases allowance with
  | zero => exact absurd hdepth (Nat.not_succ_le_zero _)
  | succ allowance =>
    have hdepths : ∀ item ∈ items, item.depth ≤ allowance := by
      intro item hitem
      exact Nat.le_trans (Json.depth_le_itemsDepth hitem) (Nat.le_of_succ_le_succ hdepth)
    have hvalues := mapM_itemsDraft hitems hdepths (h allowance (Nat.lt_succ_self _)) origin
    rw [draft, Wire.list, enter, hvalues]
    rfl

theorem exists_map_eq_of_perm {γ δ : Type} {f : γ → δ} {xs : List γ} {ys : List δ}
    (h : ys.Perm (xs.map f)) : ∃ zs : List γ, ys = zs.map f ∧ zs.Perm xs := by
  have hcomp := congrFun (congrFun (List.eq_map_comp_perm f) ys) xs
  exact hcomp.mpr h

theorem foldlM_membersDraft {encode : β → Json α} {entries : List (String × β)}
    {members : List (String × Json α)}
    (horder : Json.SameMembers (entries.map fun entry => (entry.1, encode entry.2)) members)
    (hdepth : ∀ member ∈ members, member.2.depth ≤ allowance)
    (h : ∀ entry ∈ entries, Decodes decode allowance (encode entry.2) entry.2) (origin : Origin)
    (map : KeyMap β) :
    (membersDraft members).foldlM (fun map member => do
      let name ← member.1.name
      let value ← decode origin allowance member.2
      return map.insert name value) map =
        .ok (entries.foldl (fun map entry => map.insert entry.1 entry.2) map) := by
  unfold Json.SameMembers at horder
  rw [List.forall₂_map_left_iff] at horder
  induction horder generalizing map with
  | nil => rfl
  | @cons entry member entries members hfirst _ ih =>
    rw [List.forall_mem_cons] at hdepth h
    obtain ⟨key, json⟩ := member
    obtain ⟨rfl, hjson⟩ := hfirst
    rw [membersDraft, List.foldlM_cons, h.1 json hjson hdepth.1 origin]
    exact ih hdepth.2 h.2 _

theorem ofMap {encode : β → Json α} {map : KeyMap β}
    (h : ∀ inner, inner < allowance → ∀ entry ∈ map.entries,
      Decodes decode inner (encode entry.2) entry.2) :
    Decodes (Wire.map decode) allowance (Wire.ofMap encode map) map := by
  intro json' horder hdepth origin
  obtain ⟨reordered, members, rfl, hperm, hmembers⟩ := horder.exists_object
  obtain ⟨entries, rfl, hentries⟩ := exists_map_eq_of_perm hperm.symm
  rw [Json.depth] at hdepth
  cases allowance with
  | zero => exact absurd hdepth (Nat.not_succ_le_zero _)
  | succ allowance =>
    have hdepths : ∀ member ∈ members, member.2.depth ≤ allowance := by
      intro member hmember
      exact Nat.le_trans (Json.depth_le_membersDepth hmember) (Nat.le_of_succ_le_succ hdepth)
    have hvalues : ∀ entry ∈ entries, Decodes decode allowance (encode entry.2) entry.2 := by
      intro entry hentry
      exact h allowance (Nat.lt_succ_self _) entry (hentries.mem_iff.1 hentry)
    have hmap := foldlM_membersDraft hmembers hdepths hvalues origin ∅
    rw [draft, Wire.map, enter, hmap]
    exact congrArg Except.ok (KeyMap.ofList_eq_of_perm hentries)

end Decodes

namespace Parts

theorem heads_sublist_flatten (declared : List (List String)) :
    (declared.filterMap List.head?).Sublist declared.flatten := by
  induction declared with
  | nil => exact .slnil
  | cons names declared ih =>
    cases names with
    | nil => exact ih
    | cons own others => exact (ih.trans (List.sublist_append_right _ _)).cons_cons own

theorem nameOf?_eq_self {declared : List (List String)} (hdeclared : declared.flatten.Nodup)
    {name : String} (h : name ∈ declared.filterMap List.head?) :
    nameOf? declared name = some name := by
  induction declared with
  | nil => cases h
  | cons names declared ih =>
    rw [List.flatten_cons, List.nodup_append] at hdeclared
    obtain ⟨-, hnodup, hdisjoint⟩ := hdeclared
    obtain ⟨own, hown, hhead⟩ := List.mem_filterMap.1 h
    have hname : name ∈ own := List.mem_of_head? hhead
    unfold nameOf?
    rw [List.find?_cons]
    split
    next hcontains =>
      rcases List.mem_cons.1 hown with rfl | hown
      · exact hhead
      · have hflatten : name ∈ declared.flatten := List.mem_flatten.2 ⟨own, hown, hname⟩
        exact absurd rfl (hdisjoint name (List.contains_iff_mem.1 hcontains) name hflatten)
    next hcontains =>
      refine ih hnodup (List.mem_filterMap.2 ⟨own, ?_, hhead⟩)
      rcases List.mem_cons.1 hown with rfl | hown
      · simp [hname] at hcontains
      · exact hown

/--
Keys are the own names of parts, each at most once.
-/
structure Own (declared : List (List String)) (keys : List String) : Prop where
  nodup : keys.Nodup
  named : ∀ key ∈ keys, nameOf? declared key = some key

theorem Own.of_sublist {declared : List (List String)} {keys : List String}
    (hdeclared : declared.flatten.Nodup) (h : keys.Sublist (declared.filterMap List.head?)) :
    Own declared keys where
  nodup := (h.trans (heads_sublist_flatten declared)).nodup hdeclared
  named := by
    intro key hkey
    exact nameOf?_eq_self hdeclared (h.subset hkey)

theorem Own.perm {declared : List (List String)} {keys keys' : List String}
    (h : Own declared keys) (hperm : keys.Perm keys') : Own declared keys' where
  nodup := hperm.nodup_iff.1 h.nodup
  named := by
    intro key hkey
    exact h.named key (hperm.mem_iff.2 hkey)

theorem Own.reordered {declared : List (List String)}
    {members reordered members' : List (String × Json α)} (h : Own declared (members.map (·.1)))
    (hperm : members.Perm reordered) (hmembers : Json.SameMembers reordered members') :
    Own declared (members'.map (·.1)) := by
  rw [← (Json.sameMembers_iff.1 hmembers).1]
  exact h.perm (hperm.map _)

theorem checkMembers_membersDraft {declared : List (List String)}
    {members : List (String × Json α)} (h : Own declared (members.map (·.1))) (place : Nat)
    (before : List String) (hbefore : ∀ key ∈ members.map (·.1), key ∉ before) :
    checkMembers declared none place before (membersDraft members) = .done () := by
  induction members generalizing place before with
  | nil => rfl
  | cons member members ih =>
    obtain ⟨key, json⟩ := member
    obtain ⟨hnodup, hnamed⟩ := h
    rw [List.map_cons] at hnodup hnamed hbefore
    rw [List.nodup_cons] at hnodup
    rw [List.forall_mem_cons] at hnamed hbefore
    have hfirst : before.contains key = false := by simpa using hbefore.1
    have hothers : ∀ other ∈ members.map (·.1), other ∉ key :: before := by
      intro other hother hmem
      rcases List.mem_cons.1 hmem with rfl | hmem
      · exact hnodup.1 hother
      · exact hbefore.2 other hother hmem
    rw [membersDraft, checkMembers]
    simp only [Json.Draft.name, hnamed.1, hfirst]
    exact ih ⟨hnodup.2, hnamed.2⟩ (place + 1) (key :: before) hothers

theorem ofMembers_membersDraft {declared : List (List String)} {members : List (String × Json α)}
    (h : ∀ key ∈ members.map (·.1), nameOf? declared key = some key) :
    ofMembers declared (membersDraft members) =
      members.zipIdx.map fun (member, place) => (member.1, place, member.2.draft) := by
  unfold ofMembers
  generalize 0 = start
  induction members generalizing start with
  | nil => rfl
  | cons member members ih =>
    obtain ⟨key, json⟩ := member
    rw [List.map_cons, List.forall_mem_cons] at h
    have hfirst : (do
        let key ← (Json.Draft.string (α := α) key).name.toOption
        let name ← nameOf? declared key
        return (name, start, json.draft)) = some (key, start, json.draft) := by
      change (nameOf? declared key >>= _) = _
      rw [h.1]
      rfl
    rw [membersDraft, List.zipIdx_cons, List.zipIdx_cons, List.map_cons, ← ih h.2]
    exact List.filterMap_cons_some hfirst

theorem lookup_given {members : List (String × Json α)} (h : (members.map (·.1)).Nodup)
    {name : String} {json : Json α} (hmember : (name, json) ∈ members) (start : Nat) :
    ∃ place, ((members.zipIdx start).map fun (member, place) =>
      (member.1, place, member.2.draft)).lookup name = some (place, json.draft) := by
  induction members generalizing start with
  | nil => cases hmember
  | cons member members ih =>
    rw [List.map_cons, List.nodup_cons] at h
    rw [List.zipIdx_cons, List.map_cons, KeyMap.lookup_cons]
    rcases List.mem_cons.1 hmember with rfl | hmember
    · exact ⟨start, if_pos rfl⟩
    · have hne : name ≠ member.1 := by
        rintro rfl
        exact h.1 (List.mem_map.2 ⟨_, hmember, rfl⟩)
      rw [if_neg hne]
      exact ih h.2 hmember (start + 1)

theorem lookup_given_eq_none {members : List (String × Json α)} {name : String}
    (h : name ∉ members.map (·.1)) (start : Nat) :
    ((members.zipIdx start).map fun (member, place) =>
      (member.1, place, member.2.draft)).lookup name = none := by
  induction members generalizing start with
  | nil => rfl
  | cons member members ih =>
    rw [List.map_cons, List.mem_cons, not_or] at h
    rw [List.zipIdx_cons, List.map_cons, KeyMap.lookup_cons, if_neg h.1]
    exact ih h.2 (start + 1)

/--
The parts of a record are what the members of an object give.
-/
structure Gives (parts : Parts α) (members : List (String × Json α)) : Prop where
  /-- A member gives its part, perhaps with its own members in another order. -/
  given : ∀ {name json}, (name, json) ∈ members → ∃ place json', parts.given.lookup name =
    some (place, draft json') ∧ json.Reordered json' ∧ json'.depth ≤ parts.allowance
  missing : ∀ {name}, name ∉ members.map (·.1) → parts.given.lookup name = none

namespace Gives

variable {parts : Parts α} {members : List (String × Json α)} {name : String}

theorem withDefault (hparts : parts.Gives members) (hmember : (name, json) ∈ members)
    (h : Decodes decode parts.allowance json value) (default : β) :
    parts.withDefault name decode default = .done value := by
  obtain ⟨place, json', hlookup, horder, hdepth⟩ := hparts.given hmember
  rw [Parts.withDefault, hlookup]
  dsimp only
  rw [h json' horder hdepth parts.origin]
  rfl

theorem required (hparts : parts.Gives members) (hmember : (name, json) ∈ members)
    (h : Decodes decode parts.allowance json value) :
    parts.required name decode = .done value := by
  obtain ⟨place, json', hlookup, horder, hdepth⟩ := hparts.given hmember
  rw [Parts.required, hlookup]
  dsimp only
  rw [h json' horder hdepth parts.origin]
  rfl

theorem default (hparts : parts.Gives members) (hname : name ∉ members.map (·.1))
    (decode : Decoder α β) (value : β) : parts.withDefault name decode value = .done value := by
  rw [Parts.withDefault, hparts.missing hname]

theorem optional (hparts : parts.Gives members) (hmember : (name, json) ∈ members)
    {value : Option β} (h : Decodes (Wire.optional decode) parts.allowance json value) :
    parts.optional name decode = .done value :=
  hparts.withDefault hmember h none

end Gives

theorem gives_of_reordered {declared : List (List String)}
    {members reordered members' : List (String × Json α)} (hown : Own declared (members'.map (·.1)))
    (hperm : members.Perm reordered) (hmembers : Json.SameMembers reordered members')
    (hdepth : Json.membersDepth members' ≤ allowance) (origin : Origin) (stop : Nat) :
    Gives { origin, allowance, given := ofMembers declared (membersDraft members'), stop }
      members := by
  rw [ofMembers_membersDraft hown.named]
  constructor
  · intro name json hmember
    obtain ⟨json', hmember', horder⟩ := hmembers.exists_of_mem (hperm.mem_iff.1 hmember)
    obtain ⟨place, hlookup⟩ := lookup_given hown.nodup hmember' 0
    exact ⟨place, json', hlookup, horder,
      Nat.le_trans (Json.depth_le_membersDepth hmember') hdepth⟩
  · intro name hname
    have hkeys := (Json.sameMembers_iff.1 hmembers).1
    apply lookup_given_eq_none
    rw [← hkeys, ← (hperm.map (·.1)).mem_iff]
    exact hname

end Parts

namespace Decodes

theorem record {declared : List (List String)} {build : Parts α → Assembly β}
    {members : List (String × Json α)} (hdeclared : declared.flatten.Nodup)
    (hkeys : (members.map (·.1)).Sublist (declared.filterMap List.head?))
    (hbuild : ∀ parts : Parts α, parts.allowance < allowance → parts.Gives members →
      build parts = .done value) :
    Decodes (Wire.record declared build) allowance (.object members) value := by
  intro json' horder hdepth origin
  obtain ⟨reordered, members', rfl, hperm, hmembers⟩ := horder.exists_object
  have hown : Parts.Own declared (members'.map (·.1)) :=
    (Parts.Own.of_sublist hdeclared hkeys).reordered hperm hmembers
  have hcheck := Parts.checkMembers_membersDraft hown 0 [] fun _ _ => List.not_mem_nil
  rw [Json.depth] at hdepth
  cases allowance with
  | zero => exact absurd hdepth (Nat.not_succ_le_zero _)
  | succ allowance =>
    have hgives := Parts.gives_of_reordered hown hperm hmembers (Nat.le_of_succ_le_succ hdepth)
      origin ((membersDraft members').length + 1)
    rw [draft, Wire.record, enter]
    dsimp only
    rw [hcheck, hbuild _ (Nat.lt_succ_self _) hgives]
    rfl

theorem split_others (variant : String → Option (Decoder α β)) {members : List (String × Json α)}
    (h : "type" ∉ members.map (·.1)) (hdepth : Json.membersDepth members ≤ allowance)
    (origin : Origin) (tag : Option (Decoder α β)) :
    tagged.split variant origin allowance tag (membersDraft members) = .ok (tag, members) := by
  induction members with
  | nil => rfl
  | cons member members ih =>
    obtain ⟨key, json⟩ := member
    rw [List.map_cons, List.mem_cons, not_or] at h
    rw [Json.membersDepth, Nat.max_le] at hdepth
    have hkey : (key == "type") = false := by simpa using Ne.symm h.1
    have hjson := Json.Draft.document_draft json allowance hdepth.1
    rw [membersDraft]
    unfold tagged.split
    simp only [Json.Draft.name, ok_bind, hkey, Bool.false_eq_true, if_false, hjson, ih h.2 hdepth.2]
    rfl

theorem split_tagged {variant : String → Option (Decoder α β)} {type : String}
    (hvariant : variant type = some decode) {before after : List (String × Json α)}
    (hbefore : "type" ∉ before.map (·.1)) (hafter : "type" ∉ after.map (·.1))
    (hdepth : Json.membersDepth (before ++ ("type", .string type) :: after) ≤ allowance)
    (origin : Origin) :
    tagged.split variant origin allowance none
      (membersDraft (before ++ ("type", .string type) :: after)) =
        .ok (some decode, before ++ after) := by
  induction before with
  | nil =>
    rw [List.nil_append, Json.membersDepth, Nat.max_le] at hdepth
    have hothers := split_others variant hafter hdepth.2 origin (some decode)
    rw [List.nil_append, membersDraft]
    unfold tagged.split
    simp only [Json.Draft.name, ok_bind, beq_self_eq_true, if_true, draft, tagged.choose,
      Wire.string, hvariant]
    exact hothers
  | cons member before ih =>
    obtain ⟨key, json⟩ := member
    rw [List.map_cons, List.mem_cons, not_or] at hbefore
    rw [List.cons_append, Json.membersDepth, Nat.max_le] at hdepth
    have hkey : (key == "type") = false := by simpa using Ne.symm hbefore.1
    have hjson := Json.Draft.document_draft json allowance hdepth.1
    rw [List.cons_append, membersDraft]
    unfold tagged.split
    simp only [Json.Draft.name, ok_bind, hkey, Bool.false_eq_true, if_false, hjson,
      ih hbefore.2 hdepth.2]
    rfl

theorem tagged {variant : String → Option (Decoder α β)} {type : String}
    (hvariant : variant type = some decode) {others : List (String × Json α)}
    (hothers : "type" ∉ others.map (·.1))
    (h : ∀ allowance, Decodes decode allowance (.object others) value) :
    Decodes (Wire.tagged variant) allowance (.object (("type", .string type) :: others)) value := by
  intro json' horder hdepth origin
  obtain ⟨reordered, members, rfl, hperm, hmembers⟩ := horder.exists_object
  obtain ⟨before, after, rfl⟩ := List.append_of_mem (hperm.mem_iff.1 List.mem_cons_self)
  obtain ⟨before', rest, rfl, hbefore, hrest⟩ := hmembers.exists_append
  obtain ⟨⟨_, tag⟩, after', rfl, ⟨rfl, htag⟩, hafter⟩ := hrest.exists_cons
  obtain rfl : tag = .string type := by
    cases htag
    rfl
  have hothers' : others.Perm (before ++ after) := (hperm.trans List.perm_middle).cons_inv
  have hsame : Json.SameMembers (before ++ after) (before' ++ after') :=
    List.rel_append hbefore hafter
  have hkeys : "type" ∉ (before' ++ after').map (·.1) := by
    rw [← (Json.sameMembers_iff.1 hsame).1, ← (hothers'.map (·.1)).mem_iff]
    exact hothers
  rw [List.map_append, List.mem_append, not_or] at hkeys
  have horder' : Reordered (.object others) (.object (before' ++ after')) :=
    .of_perm hothers' hsame
  rw [Json.depth] at hdepth
  cases allowance with
  | zero => exact absurd hdepth (Nat.not_succ_le_zero _)
  | succ allowance =>
    have hsplit := split_tagged hvariant hkeys.1 hkeys.2 (Nat.le_of_succ_le_succ hdepth) origin
    rw [draft, Wire.tagged, enter]
    dsimp only
    rw [hsplit]
    exact fromValue_eq_ok h horder'

end Decodes

end Tariff.Wire
