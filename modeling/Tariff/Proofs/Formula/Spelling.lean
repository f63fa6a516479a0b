import Tariff.Proofs.Formula.Lexer

/-!
This module contains how tokens can be written, so that any tokens but number literals make up the
text of some formula.
-/

namespace Tariff.Formula

def Operator.spelling : Operator → List Char
  | .add => ['+']
  | .sub => ['-']
  | .mul => ['*']
  | .div => ['/']
  | .lt => ['<']
  | .le => ['<', '=']
  | .gt => ['>']
  | .ge => ['>', '=']
  | .eq => ['=', '=']
  | .ne => ['!', '=']
  | .and => ['&', '&']
  | .or => ['|', '|']

def Mark.spelling : Mark → List Char
  | .lookup => "lookup".toList
  | .ifWord => "if".toList
  | .thenWord => "then".toList
  | .elseWord => "else".toList
  | .not => ['!']
  | .leftParen => ['(']
  | .rightParen => [')']
  | .leftBrace => ['\x7b']
  | .rightBrace => ['\x7d']
  | .comma => [',']

variable {α : Type} [Amount α]

/--
A text is read as a certain token wherever a blank follows.
-/
def Spells (word : List Char) (t : Token α) : Prop :=
  ∃ c rest, word = c :: rest ∧ isBlank c = false ∧
    ∀ after, token c (rest ++ ' ' :: after) = .ok (t, rest.length)

theorem Operator.spells (op : Operator) : Spells (α := α) op.spelling (.operator op) := by
  cases op <;> exact ⟨_, _, rfl, rfl, fun _ => rfl⟩

theorem Mark.spells (mark : Mark) : Spells (α := α) mark.spelling (.mark mark) := by
  cases mark with
  | lookup | ifWord | thenWord | elseWord =>
    exact ⟨_, _, rfl, rfl, fun _ => token_word (List.all_eq_true.1 rfl) rfl rfl⟩
  | _ => exact ⟨_, _, rfl, rfl, fun _ => rfl⟩

theorem spells_name {name : String} (h : IsName name) :
    Spells (α := α) ('$' :: name.toList) (.name name) := by
  refine ⟨'$', name.toList, rfl, rfl, ?_⟩
  intro after
  have htake : (name.toList ++ ' ' :: after).takeWhile isNameChar = name.toList := by
    rw [List.takeWhile_append_of_pos h.chars]
    simp [isNameChar]
  have hlength : nameLength (name.toList ++ ' ' :: after) = name.toList.length := by
    rw [nameLength, htake]
  simp [token, hlength, h.ne_nil]

/--
Whether a token is no number literal. Its number might have no finite decimal.
-/
def Token.IsWritable : Token α → Prop
  | .number _ => False
  | .name text => IsName text
  | .operator _ | .mark _ => True

theorem Token.IsWritable.exists_spells {t : Token α} (h : t.IsWritable) :
    ∃ word, Spells word t := by
  cases t with
  | number value => cases h
  | name text => exact ⟨_, spells_name h⟩
  | operator op => exact ⟨_, op.spells⟩
  | mark mark => exact ⟨_, mark.spells⟩

theorem exists_scans_of_isWritable {ts : List (Token α)} (h : ∀ t ∈ ts, t.IsWritable)
    (offset : Nat) : ∃ cs lexemes, Scans offset cs lexemes ∧ lexemes.map (·.token) = ts := by
  induction ts generalizing offset with
  | nil => exact ⟨[], [], .nil offset, rfl⟩
  | cons t ts ih =>
    rw [List.forall_mem_cons] at h
    obtain ⟨_, c, rest, rfl, hc, ht⟩ := h.1.exists_spells
    obtain ⟨cs, lexemes, hscans, hlexemes⟩ := ih h.2 (offset + 1 + rest.length + 1)
    refine ⟨c :: (rest ++ ' ' :: cs), ⟨t, _, _⟩ :: lexemes, .lexeme hc (ht cs) ?_, ?_⟩
    · rw [List.drop_left]
      exact .blank rfl hscans
    · rw [List.map_cons, hlexemes]

end Tariff.Formula
