import Mathlib.Algebra.Ring.Nat
import Mathlib.Data.List.Lex

/-!
# Breadboard — the order of texts

Texts are compared by the code points of their characters. Written in UTF-8 they compare byte by byte in the
same way (`Text.bytes_lt_of_lt`), which is not plain from the start, since a character takes one to four bytes.

The bytes of a character are the digits of its code point to base 64, the highest one first
(`Text.utf8EncodeChar_eq`). The leading byte has a mark that grows with the number of bytes that follow, so
of two characters the one of more bytes is the larger one, and is so by its leading byte. Between characters
of equally many bytes the first digit in which they differ decides, as it does between numbers.
-/

namespace Breadboard.Text

/-- The bytes of a text in UTF-8. -/
def bytes (s : String) : List UInt8 := s.toUTF8.data.toList

/-- The bytes of a text are those of its characters in a row. -/
theorem bytes_eq (s : String) : bytes s = s.toList.flatMap String.utf8EncodeChar := by
  have hEncoded : s.toByteArray = s.toList.utf8Encode := by
    rw [← String.toByteArray_ofList, String.ofList_toList]
  rw [bytes, String.toUTF8_eq_toByteArray, hEncoded]
  exact List.toList_data_toByteArray

-- ---------------------------------------------------------------------------
-- The bytes of a character as digits
-- ---------------------------------------------------------------------------

/-- How many bytes follow the leading one. -/
def follow (v : Nat) : Nat :=
  if v ≤ 0x7f then 0 else if v ≤ 0x7ff then 1 else if v ≤ 0xffff then 2 else 3

/-- The mark of a leading byte that `n` others follow. -/
def mark : Nat → Nat
  | 0 => 0
  | 1 => 0xc0
  | 2 => 0xe0
  | _ => 0xf0

/-- The leading byte, as a number: what is left above the lower digits, and the mark. -/
def leading (v : Nat) : Nat := v / 64 ^ follow v + mark (follow v)

/-- The last `n` digits of `v` to base 64, each in a byte of its own. -/
def trailing : Nat → Nat → List UInt8
  | 0, _ => []
  | n + 1, v => UInt8.ofNat (v / 64 ^ n % 64 + 0x80) :: trailing n v

/-- There are no characters beyond the last plane. -/
theorem toNat_lt (c : Char) : c.toNat < 0x110000 := by
  have hValid : c.toNat < 0xd800 ∨ 0xdfff < c.toNat ∧ c.toNat < 0x110000 := c.valid
  omega

/-- **The bytes of a character are the digits of its number** to base 64, with marks. -/
theorem utf8EncodeChar_eq (c : Char) :
    String.utf8EncodeChar c = UInt8.ofNat (leading c.toNat) :: trailing (follow c.toNat) c.toNat := by
  have hLt := toNat_lt c
  have hNat : c.val.toNat = c.toNat := rfl
  simp only [String.utf8EncodeChar, leading, follow, hNat]
  generalize c.toNat = v at hLt
  -- by the number of bytes: the top digit is small enough to stand beside the mark
  split_ifs with hOne hTwo hThree
  · simp [trailing, mark]
  · have hDigit : v / 64 % 32 = v / 64 := Nat.mod_eq_of_lt (by omega)
    simp [trailing, mark, hDigit]
  · have hDigit : v / 4096 % 16 = v / 4096 := Nat.mod_eq_of_lt (by omega)
    simp [trailing, mark, hDigit]
  · have hDigit : v / 262144 % 8 = v / 262144 := Nat.mod_eq_of_lt (by omega)
    simp [trailing, mark, hDigit]

-- ---------------------------------------------------------------------------
-- Comparing digits
-- ---------------------------------------------------------------------------

theorem ofNat_lt_ofNat {x y : Nat} (h : x < y) (hy : y < 256) : UInt8.ofNat x < UInt8.ofNat y :=
  (UInt8.ofNat_lt_iff_lt (Nat.lt_trans h hy) hy).mpr h

/-- The leading byte is a byte. -/
theorem leading_lt {v : Nat} (h : v < 0x110000) : leading v < 256 := by
  unfold leading follow
  split_ifs <;> simp only [mark] <;> omega

/-- The larger number has the larger leading byte, or both have equally many digits and the same first one. -/
theorem leading_lt_or_eq {v w : Nat} (h : v < w) (hw : w < 0x110000) :
    leading v < leading w ∨
      leading v = leading w ∧ follow v = follow w ∧ v / 64 ^ follow v = w / 64 ^ follow v := by
  unfold leading follow
  split_ifs <;> simp only [mark, true_and] <;> omega

/-- Of two numbers that are the same above the last `n` digits, these digits decide. -/
theorem trailing_append_lt {n v w : Nat} (h : v < w) (hSame : v / 64 ^ n = w / 64 ^ n)
    (s t : List UInt8) : trailing n v ++ s < trailing n w ++ t := by
  induction n with
  | zero =>
    rw [Nat.pow_zero, Nat.div_one, Nat.div_one] at hSame
    omega
  | succ n ih =>
    rw [Nat.pow_succ, ← Nat.div_div_eq_div_mul, ← Nat.div_div_eq_div_mul] at hSame
    have hLe : v / 64 ^ n ≤ w / 64 ^ n := Nat.div_le_div_right (Nat.le_of_lt h)
    rw [trailing, trailing, List.cons_append, List.cons_append, List.cons_lt_cons_iff]
    -- the first of the digits decides, or the digits behind it do
    rcases Nat.lt_or_eq_of_le hLe with hLt | hEq
    · left
      apply ofNat_lt_ofNat <;> omega
    · right
      exact ⟨by rw [hEq], ih hEq⟩

/-- **A smaller character has smaller bytes**, whatever comes after it. -/
theorem utf8EncodeChar_append_lt {c d : Char} (h : c < d) (s t : List UInt8) :
    String.utf8EncodeChar c ++ s < String.utf8EncodeChar d ++ t := by
  have hNat : c.toNat < d.toNat := UInt32.lt_iff_toNat_lt.mp h
  rw [utf8EncodeChar_eq, utf8EncodeChar_eq, List.cons_append, List.cons_append, List.cons_lt_cons_iff]
  rcases leading_lt_or_eq hNat (toNat_lt d) with hLt | ⟨hLeading, hFollow, hSame⟩
  · exact .inl (ofNat_lt_ofNat hLt (leading_lt (toNat_lt d)))
  · right
    rw [hLeading, ← hFollow]
    exact ⟨rfl, trailing_append_lt hNat hSame s t⟩

/-- **The order of texts is that of their bytes.** -/
theorem bytes_lt_of_lt {s t : String} (h : s < t) : bytes s < bytes t := by
  rw [bytes_eq, bytes_eq]
  have hChars : List.Lex (· < ·) s.toList t.toList := h
  generalize s.toList = cs, t.toList = ds at hChars
  -- the order of texts goes by the first character that differs
  induction hChars with
  | @nil d ds =>
    rw [List.flatMap_nil, List.flatMap_cons, utf8EncodeChar_eq]
    exact List.nil_lt_cons ..
  | rel hLt =>
    rw [List.flatMap_cons, List.flatMap_cons]
    exact utf8EncodeChar_append_lt hLt ..
  | cons _ ih =>
    rw [List.flatMap_cons, List.flatMap_cons]
    exact List.append_left_lt ih

end Breadboard.Text
