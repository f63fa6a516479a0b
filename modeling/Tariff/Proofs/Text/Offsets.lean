import Mathlib.Data.List.Basic
import Tariff.Text

/-!
This module contains texts as they are read by byte offsets, where an offset can lie outside of the
text or within a character. Such an access is a trap: the calculation that makes it has no outcome.
-/

namespace Tariff

/--
A calculation that has no outcome at all where it would run into a trap.
-/
abbrev Checked (ε β : Type) :=
  ExceptT ε Option β

namespace Checked

variable {ε ε' β γ : Type}

def safe (x : Except ε β) : Checked ε β :=
  ExceptT.mk (some x)

def trap : Checked ε β :=
  ExceptT.mk none

theorem safe_bind {x : Except ε β} {f : β → Checked ε γ} {g : β → Except ε γ}
    (h : ∀ b, x = .ok b → f b = safe (g b)) : (safe x >>= f) = safe (x >>= g) := by
  cases x with
  | error fault => rfl
  | ok b => exact h b rfl

theorem lift_bind (b : β) (f : β → Checked ε γ) : ((some b : Option β) >>= f : Checked ε γ) = f b :=
  rfl

theorem adapt_safe (f : ε → ε') (x : Except ε β) : (safe x).adapt f = safe (x.mapError f) := by
  cases x <;> rfl

end Checked

namespace Text

/--
The byte at an offset of a text, as the character with its number.
-/
def byte? (source : String) (offset : Nat) : Option Char :=
  source.toByteArray.data[offset]?.map Char.ofUInt8

/--
The text between two byte offsets, if none of them lies outside of the text or within a character.
-/
def cut? (source : String) (start stop : Nat) : Option String :=
  if h : (String.Pos.Raw.mk start).IsValid source ∧ (String.Pos.Raw.mk stop).IsValid source ∧
      start ≤ stop then
    some (String.extract ⟨⟨start⟩, h.1⟩ ⟨⟨stop⟩, h.2.1⟩)
  else
    none

/--
A byte and the character that begins with it: they are the same, unless both lie outside of ASCII.
-/
inductive Begins : Char → Char → Prop where
  | ascii {c : Char} (hc : c.utf8Size = 1) : Begins c c
  | wide {byte c : Char} (hbyte : 128 ≤ byte.val) (hc : 128 ≤ c.val) : Begins byte c

/--
The characters of a text from a byte offset on.
-/
def From (source : String) (offset : Nat) (rest : List Char) : Prop :=
  ∃ before, source.toList = before ++ rest ∧ byteLength before = offset

theorem Begins.congr {byte c : Char} {p : Char → Bool} (h : Begins byte c)
    (hp : ∀ d, 128 ≤ d.val → p d = false) : p byte = p c := by
  cases h with
  | ascii => rfl
  | wide hbyte hc => rw [hp byte hbyte, hp c hc]

theorem utf8Size_eq_one {c : Char} {p : Char → Bool} (hp : ∀ d, 128 ≤ d.val → p d = false)
    (hc : p c = true) : c.utf8Size = 1 := by
  rw [Char.utf8Size_eq_one_iff]
  by_contra hwide
  rw [hp c (UInt32.not_le.1 hwide)] at hc
  cases hc

theorem byteLength_append (cs ds : List Char) :
    byteLength (cs ++ ds) = byteLength cs + byteLength ds := by
  induction cs with
  | nil => simp [byteLength]
  | cons c cs ih =>
    simp only [byteLength, List.cons_append, List.foldr_cons] at *
    rw [ih, Nat.add_assoc]

theorem byteLength_eq_length {cs : List Char} (h : ∀ c ∈ cs, c.utf8Size = 1) :
    byteLength cs = cs.length := by
  induction cs with
  | nil => rfl
  | cons c cs ih =>
    rw [List.forall_mem_cons] at h
    have := ih h.2
    simp only [byteLength, List.foldr_cons, List.length_cons] at *
    omega

theorem length_flatMap_utf8EncodeChar (cs : List Char) :
    (cs.flatMap String.utf8EncodeChar).length = byteLength cs := by
  induction cs with
  | nil => rfl
  | cons c cs ih =>
    rw [List.flatMap_cons, List.length_append, String.length_utf8EncodeChar, ih]
    rfl

theorem toList_data_toByteArray (source : String) :
    source.toByteArray.data.toList = source.toList.flatMap String.utf8EncodeChar := by
  rw [← String.utf8Encode_toList]
  apply List.toList_data_toByteArray

theorem size_utf8Encode (cs : List Char) : cs.utf8Encode.size = byteLength cs := by
  rw [List.utf8Encode, List.size_toByteArray, length_flatMap_utf8EncodeChar]

theorem utf8ByteSize_eq (source : String) : source.utf8ByteSize = byteLength source.toList := by
  rw [← String.size_toByteArray, ← String.utf8Encode_toList, size_utf8Encode]

theorem val_ofUInt8 (byte : UInt8) : (Char.ofUInt8 byte).val = byte.toUInt32 :=
  rfl

theorem begins_utf8EncodeChar (c : Char) :
    ∃ byte, (String.utf8EncodeChar c)[0]? = some byte ∧ Begins (.ofUInt8 byte) c := by
  unfold String.utf8EncodeChar
  dsimp only
  split
  next hc =>
    have hbyte : Char.ofUInt8 (UInt8.ofNat c.val.toNat) = c := by
      apply Char.ext
      apply UInt32.toNat_inj.1
      rw [val_ofUInt8, UInt8.toNat_toUInt32, UInt8.toNat_ofNat']
      omega
    have hsize : c.utf8Size = 1 := by
      rw [Char.utf8Size_eq_one_iff, UInt32.le_iff_toNat_le]
      exact hc
    refine ⟨_, rfl, ?_⟩
    rw [hbyte]
    exact .ascii hsize
  next hc =>
    have hwide : 128 ≤ c.val := by
      rw [UInt32.le_iff_toNat_le]
      exact Nat.lt_of_not_le hc
    have hbyte (n : Nat) (hlow : 128 ≤ n) (hhigh : n < 256) :
        128 ≤ (Char.ofUInt8 (UInt8.ofNat n)).val := by
      rw [val_ofUInt8, UInt32.le_iff_toNat_le, UInt8.toNat_toUInt32, UInt8.toNat_ofNat']
      simpa [Nat.mod_eq_of_lt hhigh] using hlow
    split
    next => exact ⟨_, rfl, .wide (hbyte _ (by omega) (by omega)) hwide⟩
    next =>
      split
      next => exact ⟨_, rfl, .wide (hbyte _ (by omega) (by omega)) hwide⟩
      next => exact ⟨_, rfl, .wide (hbyte _ (by omega) (by omega)) hwide⟩

theorem byte?_eq (source : String) (offset : Nat) :
    byte? source offset =
      (source.toList.flatMap String.utf8EncodeChar)[offset]?.map Char.ofUInt8 := by
  rw [byte?, ← toList_data_toByteArray, Array.getElem?_toList]

namespace From

variable {source : String} {offset : Nat} {c : Char} {text rest : List Char}

theorem zero (source : String) : From source 0 source.toList :=
  ⟨[], rfl, rfl⟩

theorem append (h : From source offset (text ++ rest)) :
    From source (offset + byteLength text) rest := by
  obtain ⟨before, hsource, rfl⟩ := h
  exact ⟨before ++ text, by rw [hsource, List.append_assoc], byteLength_append _ _⟩

theorem drop (h : From source offset rest) (count : Nat) (hcount : count ≤ rest.length)
    (hascii : ∀ c ∈ rest.take count, c.utf8Size = 1) :
    From source (offset + count) (rest.drop count) := by
  rw [← List.take_append_drop count rest] at h
  have happend := h.append
  rwa [byteLength_eq_length hascii, List.length_take_of_le hcount] at happend

theorem tail (h : From source offset (c :: rest)) (hc : c.utf8Size = 1) :
    From source (offset + 1) rest := by
  apply h.drop 1 (Nat.le_add_left 1 _)
  simpa using hc

theorem utf8ByteSize_eq (h : From source offset rest) :
    source.utf8ByteSize = offset + byteLength rest := by
  obtain ⟨before, hsource, rfl⟩ := h
  rw [Text.utf8ByteSize_eq, hsource, byteLength_append]

theorem lt_utf8ByteSize (h : From source offset (c :: rest)) : offset < source.utf8ByteSize := by
  have hsize := h.utf8ByteSize_eq
  have hc := c.utf8Size_pos
  simp only [byteLength, List.foldr_cons] at hsize
  omega

theorem isValid (h : From source offset rest) : (String.Pos.Raw.mk offset).IsValid source := by
  obtain ⟨before, hsource, rfl⟩ := h
  rw [String.Pos.Raw.isValid_iff_exists_append]
  refine ⟨.ofList before, .ofList rest, ?_, ?_⟩
  · rw [← String.ofList_append, ← hsource, String.ofList_toList]
  · apply String.Pos.Raw.ext
    rw [String.byteIdx_rawEndPos, Text.utf8ByteSize_eq, String.toList_ofList]

theorem cut?_eq (h : From source offset (text ++ rest)) :
    cut? source offset (offset + byteLength text) = some (.ofList text) := by
  unfold cut?
  rw [dif_pos ⟨h.isValid, h.append.isValid, Nat.le_add_right _ _⟩]
  obtain ⟨before, hsource, rfl⟩ := h
  have hbytes : source.toByteArray = before.utf8Encode ++ (text.utf8Encode ++ rest.utf8Encode) := by
    rw [← String.utf8Encode_toList, hsource, List.utf8Encode_append, List.utf8Encode_append]
  have hcut : source.toByteArray.extract (byteLength before)
      (byteLength before + byteLength text) = text.utf8Encode := by
    rw [hbytes, ← Nat.add_zero (byteLength before), Nat.add_assoc, Nat.zero_add,
      ← size_utf8Encode, ByteArray.extract_append_size_add]
    exact ByteArray.extract_append_eq_left (size_utf8Encode text).symm
  rw [Option.some.injEq, ← String.toByteArray_inj, String.toByteArray_extract,
    String.toByteArray_ofList]
  exact hcut

theorem cut?_take (h : From source offset rest) (count : Nat) (hcount : count ≤ rest.length)
    (hascii : ∀ c ∈ rest.take count, c.utf8Size = 1) :
    cut? source offset (offset + count) = some (.ofList (rest.take count)) := by
  rw [← List.take_append_drop count rest] at h
  have hcut := h.cut?_eq
  rwa [byteLength_eq_length hascii, List.length_take_of_le hcount] at hcut

theorem cut?_rest (h : From source offset rest) :
    cut? source offset source.utf8ByteSize = some (.ofList rest) := by
  rw [h.utf8ByteSize_eq]
  rw [← List.append_nil rest] at h
  exact h.cut?_eq

theorem byte?_eq_head? (h : From source offset rest) :
    byte? source offset =
      (rest.flatMap String.utf8EncodeChar).head?.map Char.ofUInt8 := by
  obtain ⟨before, hsource, rfl⟩ := h
  rw [byte?_eq, hsource, List.flatMap_append, ← length_flatMap_utf8EncodeChar,
    List.getElem?_append_right (Nat.le_refl _), Nat.sub_self, List.head?_eq_getElem?]

theorem byte?_nil (h : From source offset []) : byte? source offset = none := by
  rw [h.byte?_eq_head?]
  rfl

theorem byte?_cons (h : From source offset (c :: rest)) :
    ∃ byte, byte? source offset = some byte ∧ Begins byte c := by
  obtain ⟨byte, hbyte, hbegins⟩ := begins_utf8EncodeChar c
  refine ⟨.ofUInt8 byte, ?_, hbegins⟩
  rw [h.byte?_eq_head?, List.flatMap_cons, List.head?_append, List.head?_eq_getElem?, hbyte]
  rfl

/--
A partial function that has no values at characters outside of ASCII cannot tell the next byte from
the next character.
-/
theorem byte?_bind {β : Type} {f : Char → Option β} (hf : ∀ d, 128 ≤ d.val → f d = none)
    (h : From source offset rest) : (byte? source offset).bind f = rest.head?.bind f := by
  cases rest with
  | nil => rw [h.byte?_nil, List.head?_nil]
  | cons c rest =>
    obtain ⟨byte, hbyte, hbegins⟩ := h.byte?_cons
    rw [hbyte, List.head?_cons]
    cases hbegins with
    | ascii => rfl
    | wide hwide hc => rw [Option.bind_some, Option.bind_some, hf byte hwide, hf c hc]

theorem byte?_any {p : Char → Bool} (hp : ∀ d, 128 ≤ d.val → p d = false)
    (h : From source offset rest) : (byte? source offset).any p = rest.head?.any p := by
  cases rest with
  | nil => rw [h.byte?_nil, List.head?_nil]
  | cons c rest =>
    obtain ⟨byte, hbyte, hbegins⟩ := h.byte?_cons
    rw [hbyte, List.head?_cons, Option.any_some, Option.any_some, hbegins.congr hp]

end From

end Text

end Tariff
