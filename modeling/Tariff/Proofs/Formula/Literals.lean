import Tariff.Proofs.Fault
import Tariff.Proofs.Formula.Bytes

/-!
This module contains the proof that number literals are numerals. Without its underscores the text
of a literal has digits and one point at most, so that it always stands for a number.
-/

namespace Tariff

namespace Decimal

/--
Digits with one point at most, which can be anywhere among them.
-/
structure IsNumeral (cs : List Char) : Prop where
  chars : ∀ c ∈ cs, c.isDigit = true ∨ c = '.'
  points : cs.count '.' ≤ 1
  digit : ∃ c ∈ cs, c.isDigit = true

theorem takeWhile_isDigit {digits : List Char} (h : ∀ c ∈ digits, c.isDigit = true) :
    digits.takeWhile Char.isDigit = digits := by
  have happend : (digits ++ []).takeWhile Char.isDigit = digits ++ [] :=
    List.takeWhile_append_of_pos h
  rwa [List.append_nil] at happend

theorem dropWhile_isDigit {digits : List Char} (h : ∀ c ∈ digits, c.isDigit = true) :
    digits.dropWhile Char.isDigit = [] := by
  have happend : (digits ++ []).dropWhile Char.isDigit = [] := List.dropWhile_append_of_pos h
  rwa [List.append_nil] at happend

namespace Numeral

theorem exists_unsigned?_whole {whole : List Char} (h : ∀ c ∈ whole, c.isDigit = true)
    (hne : whole ≠ []) : ∃ numeral, unsigned? false whole = some numeral := by
  unfold unsigned?
  dsimp only
  rw [takeWhile_isDigit h, dropWhile_isDigit h, List.isEmpty_eq_false_iff.2 hne]
  exact ⟨_, rfl⟩

theorem exists_unsigned?_point {whole fraction : List Char} (hwhole : ∀ c ∈ whole, c.isDigit = true)
    (hfraction : ∀ c ∈ fraction, c.isDigit = true) (hne : whole ++ fraction ≠ []) :
    ∃ numeral, unsigned? false (whole ++ '.' :: fraction) = some numeral := by
  have htake : (whole ++ '.' :: fraction).takeWhile Char.isDigit = whole := by
    rw [List.takeWhile_append_of_pos hwhole]
    exact List.append_nil whole
  have hdrop : (whole ++ '.' :: fraction).dropWhile Char.isDigit = '.' :: fraction :=
    List.dropWhile_append_of_pos hwhole
  have hempty : (whole.isEmpty && fraction.isEmpty) = false := by
    cases whole with
    | nil => exact List.isEmpty_eq_false_iff.2 hne
    | cons c whole => rfl
  unfold unsigned?
  dsimp only
  rw [htake, hdrop]
  simp only
  rw [takeWhile_isDigit hfraction, dropWhile_isDigit hfraction, hempty]
  exact ⟨_, rfl⟩

end Numeral

theorem IsNumeral.exists_unsigned? {cs : List Char} (h : IsNumeral cs) :
    ∃ numeral, Numeral.unsigned? false cs = some numeral := by
  obtain ⟨d, hd, hdigit⟩ := h.digit
  have hwhole : ∀ c ∈ cs.takeWhile Char.isDigit, c.isDigit = true :=
    List.all_eq_true.1 List.all_takeWhile
  have hstop := List.head?_dropWhile_not Char.isDigit cs
  have hsplit := List.takeWhile_append_dropWhile (p := Char.isDigit) (l := cs)
  generalize cs.takeWhile Char.isDigit = whole, cs.dropWhile Char.isDigit = after at *
  subst hsplit
  cases after with
  | nil =>
    rw [List.append_nil] at hd ⊢
    exact Numeral.exists_unsigned?_whole hwhole (List.ne_nil_of_mem hd)
  | cons e fraction =>
    obtain rfl : e = '.' := by
      refine (h.chars e (by simp)).resolve_left ?_
      simpa using hstop
    have hpoints := h.points
    rw [List.count_append, List.count_cons_self] at hpoints
    refine Numeral.exists_unsigned?_point hwhole ?_ ?_
    · intro c hc
      refine (h.chars c (by simp [hc])).resolve_right ?_
      rintro rfl
      have hpositive := List.count_pos_iff.2 hc
      omega
    · intro hnil
      obtain ⟨rfl, rfl⟩ := List.append_eq_nil_iff.1 hnil
      obtain rfl : d = '.' := by simpa using hd
      cases hdigit

end Decimal

namespace Formula

open Text

variable {c : Char} {cs rest : List Char} {seenPoint : Bool}

theorem chars_numberLength {d : Char} (h : d ∈ cs.take (numberLength seenPoint cs)) :
    (d.isDigit = true ∨ d = '_') ∨ d = '.' := by
  fun_induction numberLength seenPoint cs with
  | case1 => cases h
  | case2 _ c cs hc ih =>
    rw [List.take_succ_cons, List.mem_cons] at h
    rcases h with rfl | h
    · exact .inl (by simpa using hc)
    · exact ih h
  | case3 _ c cs _ hpoint ih =>
    rw [List.take_succ_cons, List.mem_cons] at h
    rcases h with rfl | h
    · rw [Bool.and_eq_true, beq_iff_eq] at hpoint
      exact .inr hpoint.1
    · exact ih h
  | case4 => cases h

theorem count_numberLength (seenPoint : Bool) (cs : List Char) :
    (cs.take (numberLength seenPoint cs)).count '.' ≤ (!seenPoint).toNat := by
  fun_induction numberLength seenPoint cs with
  | case1 => apply Nat.zero_le
  | case2 _ c cs hc ih =>
    have hne : c ≠ '.' := by
      rintro rfl
      cases hc
    rw [List.take_succ_cons, List.count_cons_of_ne hne]
    exact ih
  | case3 seenPoint c cs _ hpoint ih =>
    obtain ⟨hc, hseen⟩ := Bool.and_eq_true_iff.1 hpoint
    rw [List.take_succ_cons, beq_iff_eq.1 hc, List.count_cons_self, hseen]
    exact Nat.succ_le_succ ih
  | case4 => apply Nat.zero_le

/--
The text of the number literal that begins with a character, without its underscores.
-/
def numberText (c : Char) (rest : List Char) : List Char :=
  (c :: rest.take (numberLength (c == '.') rest)).filter (· != '_')

theorem isNumeral_numberText
    (h : (c.isDigit || (c == '.' && rest.head?.any Char.isDigit)) = true) :
    Decimal.IsNumeral (numberText c rest) where
  chars := by
    intro d hd
    simp only [numberText, List.mem_filter, List.mem_cons, bne_iff_ne] at hd
    obtain ⟨rfl | hd, hne⟩ := hd
    · rw [Bool.or_eq_true, Bool.and_eq_true, beq_iff_eq] at h
      exact h.imp_right And.left
    · exact (chars_numberLength hd).imp_left fun hchar => hchar.resolve_right hne
  points := by
    refine Nat.le_trans (List.filter_sublist.count_le _) ?_
    have hcount := count_numberLength (c == '.') rest
    by_cases hc : c = '.'
    · subst hc
      rw [List.count_cons_self]
      exact Nat.succ_le_succ hcount
    · rw [List.count_cons_of_ne hc]
      exact Nat.le_trans hcount (Bool.toNat_le _)
  digit := by
    rw [Bool.or_eq_true, Bool.and_eq_true, beq_iff_eq] at h
    rcases h with hdigit | ⟨rfl, hnext⟩
    · have hne := bne_iff_ne.2 (ne_of_isDigit (d := '_') hdigit rfl)
      exact ⟨c, List.mem_filter.2 ⟨List.mem_cons_self, hne⟩, hdigit⟩
    · cases rest with
      | nil => cases hnext
      | cons d rest =>
        have hdigit : d.isDigit = true := hnext
        have hne := bne_iff_ne.2 (ne_of_isDigit (d := '_') hdigit rfl)
        refine ⟨d, List.mem_filter.2 ⟨?_, hne⟩, hdigit⟩
        rw [beq_self_eq_true, numberLength, hdigit, Bool.true_or, if_pos rfl,
          List.take_succ_cons]
        simp

theorem exists_literal? {source : String} {offset : Nat} (h : From source offset (c :: rest))
    (hnumber : (c.isDigit || (c == '.' && rest.head?.any Char.isDigit)) = true) :
    ∃ text stop, literal? source offset = some (text, stop) ∧
      Decimal.IsNumeral (text.toList.filter (· != '_')) := by
  have hc : c.isDigit = true ∨ c = '.' := by
    rw [Bool.or_eq_true, Bool.and_eq_true, beq_iff_eq] at hnumber
    exact hnumber.imp_right And.left
  refine ⟨_, _, literal?_eq h hc, ?_⟩
  rw [String.toList_ofList]
  exact isNumeral_numberText hnumber

variable {α : Type} [Amount α]

theorem token_faultsIn (c : Char) (rest : List Char) :
    FaultsIn (fun cause => ∀ text, cause ≠ .malformedNumber text) (token (α := α) c rest) := by
  unfold token
  split
  next hnumber =>
    obtain ⟨numeral, hnumeral⟩ := (isNumeral_numberText hnumber).exists_unsigned?
    refine FaultsIn.bind ?_ fun t _ => .ok _
    unfold numberToken
    rw [← numberText, hnumeral]
    exact .ok _
  next =>
    split
    next =>
      dsimp only
      split
      next => exact .error nofun
      next => exact .ok _
    next =>
      split
      next => exact .ok _
      next =>
        unfold signsToken
        split
        next => exact .ok _
        next =>
          split
          next => exact .ok _
          next => exact .error nofun

end Formula

end Tariff
