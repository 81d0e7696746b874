/-
  ClassOutline.Proofs.Text.Bytes
  ────────────────────────────────
  **A TEXT IN UTF-8, AND THE BYTES AT AN OFFSET.**

  `byteLength` measures the bytes of a text (`length_bytes`), so the offset where
  a part ends is where the bytes of the next one begin.

  A character below 128 is one byte, and that byte stands nowhere in any other
  character (`mem_utf8EncodeChar_iff`).  So a look at the first or the last byte
  of a text tells whether such a character stands there, however many bytes its
  neighbour has.
-/
import Mathlib.Data.List.Basic
import Mathlib.Data.List.Induction
import ClassOutline.Text.Basic

namespace ClassOutline.Text

/-! ## §1. The bytes of a text. -/

/-- The text in UTF-8. -/
def bytes (t : Text) : List UInt8 := t.flatMap String.utf8EncodeChar

theorem bytes_cons (c : Char) (t : Text) :
    bytes (c :: t) = String.utf8EncodeChar c ++ t.bytes := List.flatMap_cons

theorem bytes_append (t u : Text) : bytes (t ++ u) = t.bytes ++ u.bytes := List.flatMap_append

theorem byteLength_cons (c : Char) (t : Text) :
    byteLength (c :: t) = c.utf8Size + t.byteLength := rfl

/-- The length of a text in UTF-8 is the number of its bytes. -/
theorem length_bytes (t : Text) : t.bytes.length = t.byteLength := by
  induction t with
  | nil => rfl
  | cons c t ih =>
      rw [bytes_cons, List.length_append, String.length_utf8EncodeChar, ih, byteLength_cons]

theorem byteLength_append (t u : Text) :
    byteLength (t ++ u) = t.byteLength + u.byteLength := by
  rw [← length_bytes, bytes_append, List.length_append, length_bytes, length_bytes]

/-- The bytes from one offset to another. -/
def bytesBetween (t : Text) (first last : Nat) : List UInt8 := (t.bytes.take last).drop first

/-- A part of a text has its bytes between the offsets where it begins and ends. -/
theorem bytesBetween_append (front part rest : Text) :
    bytesBetween (front ++ (part ++ rest)) front.byteLength
      (front.byteLength + part.byteLength) = part.bytes := by
  unfold bytesBetween
  rw [bytes_append, bytes_append, ← List.append_assoc, List.take_left', List.drop_left']
  · exact length_bytes front
  · rw [List.length_append, length_bytes, length_bytes]

/-! ## §2. Characters of one byte. -/

variable {c x : Char}

/-- A character below 128 is its code. -/
theorem utf8EncodeChar_of_lt (h : c.toNat < 128) : String.utf8EncodeChar c = [c.toUInt8] := by
  have small : c.val.toNat ≤ 127 := Nat.le_of_lt_succ h
  unfold String.utf8EncodeChar
  rw [if_pos small]
  rfl

/-- All bytes of another character are at least 128. -/
theorem le_of_mem_utf8EncodeChar (h : 128 ≤ c.toNat) {b : UInt8}
    (hb : b ∈ String.utf8EncodeChar c) : 128 ≤ b.toNat := by
  have large : ¬ c.val.toNat ≤ 127 := Nat.not_le_of_lt h
  unfold String.utf8EncodeChar at hb
  rw [if_neg large] at hb
  -- two, three or four bytes, and each of them has the highest bit
  split at hb
  · simp only [List.mem_cons, List.not_mem_nil, or_false] at hb
    rcases hb with rfl | rfl <;> simp only [UInt8.toNat_ofNat'] <;> omega
  · split at hb
    · simp only [List.mem_cons, List.not_mem_nil, or_false] at hb
      rcases hb with rfl | rfl | rfl <;> simp only [UInt8.toNat_ofNat'] <;> omega
    · simp only [List.mem_cons, List.not_mem_nil, or_false] at hb
      rcases hb with rfl | rfl | rfl | rfl <;> simp only [UInt8.toNat_ofNat'] <;> omega

theorem toNat_toUInt8 (h : c.toNat < 128) : c.toUInt8.toNat = c.toNat := by
  show c.val.toUInt8.toNat = c.val.toNat
  have small : c.val.toNat < 128 := h
  rw [UInt32.toNat_toUInt8]
  omega

/-- **THE BYTE OF A CHARACTER BELOW 128 STANDS IN NO OTHER CHARACTER.** -/
theorem mem_utf8EncodeChar_iff (hx : x.toNat < 128) :
    x.toUInt8 ∈ String.utf8EncodeChar c ↔ c = x := by
  constructor
  · intro hmem
    by_cases hc : c.toNat < 128
    · rw [utf8EncodeChar_of_lt hc, List.mem_singleton] at hmem
      have codes := congrArg UInt8.toNat hmem
      rw [toNat_toUInt8 hx, toNat_toUInt8 hc] at codes
      rw [← Char.ofNat_toNat c, ← codes, Char.ofNat_toNat]
    · have large := le_of_mem_utf8EncodeChar (Nat.le_of_not_lt hc) hmem
      rw [toNat_toUInt8 hx] at large
      omega
  · rintro rfl
    rw [utf8EncodeChar_of_lt hx]
    exact List.mem_singleton_self _

theorem utf8EncodeChar_ne_nil (c : Char) : String.utf8EncodeChar c ≠ [] := by
  intro hnil
  have hlength := String.length_utf8EncodeChar c
  have hpos := c.utf8Size_pos
  rw [hnil, List.length_nil] at hlength
  omega

theorem bytes_eq_nil_iff {t : Text} : t.bytes = [] ↔ t = [] := by
  cases t with
  | nil => exact iff_of_true rfl rfl
  | cons c t =>
      refine iff_of_false ?_ (List.cons_ne_nil c t)
      rw [bytes_cons]
      exact List.append_ne_nil_of_left_ne_nil (utf8EncodeChar_ne_nil c) _

/-- A text begins with the byte of such a character if it begins with the character. -/
theorem head?_bytes_iff (hx : x.toNat < 128) (t : Text) :
    t.bytes.head? = some x.toUInt8 ↔ t.head? = some x := by
  cases t with
  | nil => exact iff_of_false nofun nofun
  | cons c t =>
      rw [bytes_cons, List.head?_append_of_ne_nil _ (utf8EncodeChar_ne_nil c), List.head?_cons,
        Option.some_inj]
      constructor
      · exact fun h => (mem_utf8EncodeChar_iff hx).1 (List.mem_of_mem_head? h)
      · rintro rfl
        rw [utf8EncodeChar_of_lt hx]
        rfl

/-- It ends with the byte if it ends with the character. -/
theorem getLast?_bytes_iff (hx : x.toNat < 128) (t : Text) :
    t.bytes.getLast? = some x.toUInt8 ↔ t.getLast? = some x := by
  induction t using List.reverseRecOn with
  | nil => exact iff_of_false nofun nofun
  | append_singleton t c _ =>
      have single : bytes [c] = String.utf8EncodeChar c := List.append_nil _
      rw [bytes_append, single, List.getLast?_append_of_ne_nil _ (utf8EncodeChar_ne_nil c),
        List.getLast?_concat, Option.some_inj]
      constructor
      · exact fun h => (mem_utf8EncodeChar_iff hx).1 (List.mem_of_getLast? h)
      · rintro rfl
        rw [utf8EncodeChar_of_lt hx]
        rfl

/-! ## §3. The bytes around an offset. -/

/-- The byte at a distance in front of an offset, if there are so many. -/
def byteBefore? (bytes : List UInt8) (offset distance : Nat) : Option UInt8 :=
  if distance ≤ offset then bytes[offset - distance]? else none

variable (front rest : Text)

theorem byteBefore?_one :
    byteBefore? (bytes (front ++ rest)) front.byteLength 1 = front.bytes.getLast? := by
  unfold byteBefore?
  rw [bytes_append, List.getLast?_eq_getElem?, ← length_bytes]
  split
  · next h => rw [List.getElem?_append_left (by omega)]
  · next h =>
    have empty : front.bytes = [] := List.eq_nil_of_length_eq_zero (by omega)
    rw [empty]
    rfl

/-- In front of a last character of one byte, the byte two before the offset is the last one. -/
theorem byteBefore?_two (hx : x.toNat < 128) :
    byteBefore? (bytes (front ++ [x] ++ rest)) (byteLength (front ++ [x])) 2
      = front.bytes.getLast? := by
  have one : byteLength (front ++ [x]) = front.byteLength + 1 := by
    rw [← length_bytes, bytes_append, List.length_append, length_bytes, bytes_cons,
      utf8EncodeChar_of_lt hx]
    rfl
  have shifted := byteBefore?_one front ([x] ++ rest)
  rw [← List.append_assoc] at shifted
  rw [← shifted, one]
  unfold byteBefore?
  simp only [Nat.reduceLeDiff, List.append_assoc]
  rfl

theorem getElem?_bytes_behind (hx : x.toNat < 128) :
    (bytes (front ++ x :: rest))[front.byteLength + 1]? = rest.bytes.head? := by
  rw [bytes_append, bytes_cons, utf8EncodeChar_of_lt hx, ← length_bytes,
    List.getElem?_append_right (Nat.le_add_right _ 1), Nat.add_sub_cancel_left,
    List.head?_eq_getElem?]
  rfl

end ClassOutline.Text
