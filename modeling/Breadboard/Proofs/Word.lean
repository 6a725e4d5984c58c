import Breadboard.Word
import Mathlib.Algebra.Order.Ring.Int
import Mathlib.Algebra.Ring.Nat
import Mathlib.Data.Int.ModEq

/-!
# Breadboard — what a cut keeps

`fit` is defined by a mask and two changes of type. Here it is described bit by bit: bit `i` of
`fit v w` is bit `i` of `v` as long as `i` is below the width and below 16, and zero from there on
(`getLsbD_fit`). From this follows how cuts compose:

* `fit_fit` — cutting twice is cutting once to the smaller width;
* `fit_toInt32_fit` — a word that was cut to a width is not changed by cutting it again, also
  when it is a negative word that was widened in between.

As a number the result is a residue: below width 16 the least one that is not negative, from there on
the one that is read with a sign (`toInt_fit_of_lt`, `toInt_fit_of_le`). `fits` is a comparison of
numbers, and for words the two agree: a word fits a width exactly if the cut leaves it as it is
(`fits_iff_fit_eq`). For values they agree up to the sign: a value fits a pin exactly if what the pin keeps
of it (`fit_eq_iff_residue`) denotes it, where a half-word may be read in both notations
(`fits_iff_denotes`).
-/

namespace Breadboard

/-! ## Widths as numbers -/

/-- The smaller width is the smaller number. -/
theorem Width.toNat_min (a b : Width) : (min a b).toNat = min a.toNat b.toNat := by
  have hle : a ≤ b ↔ a.toNat ≤ b.toNat := UInt8.le_iff_toNat_le
  show (if a ≤ b then a else b).toNat = min a.toNat b.toNat
  by_cases h : a ≤ b
  · rw [if_pos h, Nat.min_eq_left (hle.mp h)]
  · rw [if_neg h, Nat.min_eq_right (Nat.le_of_not_le fun h' => h (hle.mpr h'))]

/-- A one shifted to the left by less than 32 places is not lost. -/
theorem Width.toNat_one_shiftLeft {w : Width} (hw : w.toNat < 32) :
    (1 <<< w.toUInt32 : UInt32).toNat = 2 ^ w.toNat := by
  have hPow : 2 ^ w.toNat < 2 ^ 32 := Nat.pow_lt_pow_right (by decide) hw
  rw [UInt32.toNat_shiftLeft, UInt8.toNat_toUInt32, Nat.mod_eq_of_lt hw, Nat.shiftLeft_eq]
  show 1 * 2 ^ w.toNat % 2 ^ 32 = 2 ^ w.toNat
  rw [Nat.one_mul, Nat.mod_eq_of_lt hPow]

/-- The mask of a width that a pin can have, as a number. -/
theorem Width.toNat_mask {w : Width} (hw : w.toNat ≤ 16) :
    (Width.mask w).toNat = 2 ^ w.toNat - 1 := by
  have hShift := toNat_one_shiftLeft (w := w) (by omega)
  unfold Width.mask
  rw [UInt32.toNat_sub_of_le, hShift]
  · rfl
  · rw [UInt32.le_iff_toNat_le, hShift]
    exact Nat.one_le_two_pow

/-- The bits of a mask are set up to the width. -/
theorem Width.getLsbD_mask {w : Width} (hw : w.toNat ≤ 16) (i : Nat) :
    (Width.mask w).toBitVec.getLsbD i = decide (i < w.toNat) := by
  rw [← BitVec.testBit_toNat, UInt32.toNat_toBitVec, toNat_mask hw, Nat.testBit_two_pow_sub_one]

/-! ## Cuts bit by bit -/

/-- **The bits that a cut keeps** are those below the width and below 16. -/
theorem getLsbD_fit (v : Value) (w : Width) (i : Nat) :
    (fit v w).toBitVec.getLsbD i = (decide (i < min w.toNat 16) && v.toBitVec.getLsbD i) := by
  have hWidth : (min w Width.widest).toNat = min w.toNat 16 := Width.toNat_min w Width.widest
  have hMask := Width.getLsbD_mask (w := min w Width.widest) (by omega) i
  -- each change of type keeps the bits below 16, and the mask those below the width
  rw [hWidth] at hMask
  simp only [fit, UInt16.toBitVec_toInt16, UInt32.toBitVec_toUInt16, BitVec.getLsbD_setWidth,
    UInt32.toBitVec_and, BitVec.getLsbD_and, Int32.toBitVec_toUInt32, hMask]
  by_cases hi : i < min w.toNat 16
  · have h16 : i < 16 := by omega
    simp [hi, h16]
  · simp [hi]

/-- Nothing is left of zero but zero. -/
theorem fit_zero (w : Width) : fit 0 w = 0 := by
  apply Int16.toBitVec_inj.mp
  apply BitVec.eq_of_getLsbD_eq
  intro i hi
  rw [getLsbD_fit]
  simp

/-- Below bit 16 a widened word has the bits of the word, whatever its sign. -/
theorem getLsbD_toInt32 (word : Word) {i : Nat} (hi : i < 16) :
    word.toInt32.toBitVec.getLsbD i = word.toBitVec.getLsbD i := by
  have h32 : i < 32 := by omega
  rw [Int16.toBitVec_toInt32, BitVec.getLsbD_signExtend]
  simp [h32, hi]

/-- Cutting to one width and then to another is cutting to the smaller one. -/
theorem fit_fit (v : Value) (a b : Width) : fit (fit v a).toInt32 b = fit v (min a b) := by
  apply Int16.toBitVec_inj.mp
  apply BitVec.eq_of_getLsbD_eq
  intro i hi
  rw [getLsbD_fit, getLsbD_fit, getLsbD_toInt32 _ hi, getLsbD_fit, Width.toNat_min, ← Bool.and_assoc,
    ← Bool.decide_and]
  -- a bit is kept twice if it is below both widths
  congr 2
  rw [eq_iff_iff]
  omega

/-- What was cut to a width fits that width. -/
theorem fit_toInt32_fit (v : Value) (w : Width) : fit (fit v w).toInt32 w = fit v w := by
  rw [fit_fit]
  congr 1
  show (if w ≤ w then w else w) = w
  exact ite_self w

/-! ## Cuts as numbers -/

/-- A cut keeps the residue of a value, and reads it as a half-word with a sign. -/
theorem toInt_fit (v : Value) (w : Width) :
    (fit v w).toInt = (v.toInt % 2 ^ min w.toNat 16).bmod (2 ^ 16) := by
  have hWidth : (min w Width.widest).toNat = min w.toNat 16 := Width.toNat_min w Width.widest
  have hMask := Width.toNat_mask (w := min w Width.widest) (by omega)
  rw [hWidth] at hMask
  have hLow : ((v.toUInt32 &&& Width.mask (min w Width.widest)).toNat : Int) =
      v.toInt % 2 ^ min w.toNat 16 := by
    -- a value and its unsigned reading differ by a multiple of `2 ^ 32`
    have hReading : v.toInt = (v.toUInt32.toNat : Int).bmod (2 ^ 32) :=
      v.toBitVec.toInt_eq_toNat_bmod
    have hDvd : (2 : Int) ^ min w.toNat 16 ∣ (2 ^ 32 : Nat) :=
      pow_dvd_pow 2 (show min w.toNat 16 ≤ 32 by omega)
    rw [UInt32.toNat_and, hMask, Nat.and_two_pow_sub_one_eq_mod, hReading,
      ← Int.emod_emod_of_dvd _ hDvd, Int.bmod_emod, Int.emod_emod_of_dvd _ hDvd]
    push_cast
    rfl
  show ((v.toUInt32 &&& Width.mask (min w Width.widest)).toUInt16.toBitVec).toInt = _
  rw [BitVec.toInt_eq_toNat_bmod, UInt16.toNat_toBitVec, UInt32.toNat_toUInt16, ← hLow,
    Int.natCast_emod, Int.emod_bmod]

/-- Below width 16 the residue has no sign to read … -/
theorem toInt_fit_of_lt (v : Value) {w : Width} (hw : w.toNat < 16) :
    (fit v w).toInt = v.toInt % 2 ^ w.toNat := by
  have hPow : (2 : Int) ^ w.toNat ≤ 2 ^ 15 := pow_le_pow_right₀ (by decide) (by omega)
  have hPos : (0 : Int) < 2 ^ w.toNat := Int.pow_pos (by decide)
  have hMin : min w.toNat 16 = w.toNat := by omega
  rw [toInt_fit, hMin]
  -- the residue is below `2 ^ 15`, so the sign bit is clear
  have hNonneg := Int.emod_nonneg v.toInt hPos.ne'
  have hLt := Int.emod_lt_of_pos v.toInt hPos
  apply Int.bmod_eq_of_le <;> omega

/-- … and from there on all 16 bits are read with one. -/
theorem toInt_fit_of_le (v : Value) {w : Width} (hw : 16 ≤ w.toNat) :
    (fit v w).toInt = v.toInt.bmod (2 ^ 16) := by
  have hMin : min w.toNat 16 = 16 := by omega
  rw [toInt_fit, hMin]
  exact Int.emod_bmod ..

/-! ## What fits -/

/-- Below width 16 what fits are the numbers with that many bits. -/
theorem fits_iff_of_lt {v : Value} {w : Width} (hw : w.toNat < 16) :
    fits v w = true ↔ 0 ≤ v.toInt ∧ v.toInt < 2 ^ w.toNat := by
  have hNarrow : ¬ Width.widest ≤ w := by
    rw [UInt8.le_iff_toNat_le]
    exact Nat.not_le.mpr hw
  have hPow : 2 ^ w.toNat ≤ 2 ^ 15 := Nat.pow_le_pow_right (by decide) (by omega)
  -- the mask is too small to have a sign
  have hMask : (Width.mask w).toInt32.toInt = 2 ^ w.toNat - 1 := by
    show (Width.mask w).toBitVec.toInt = _
    have hNat : (Width.mask w).toBitVec.toNat = 2 ^ w.toNat - 1 := Width.toNat_mask (by omega)
    rw [BitVec.toInt_eq_toNat_of_lt (by omega), hNat, Nat.cast_sub Nat.one_le_two_pow]
    push_cast
    rfl
  rw [fits, if_neg hNarrow, Bool.and_eq_true, decide_eq_true_eq, decide_eq_true_eq,
    Int32.le_iff_toInt_le, Int32.le_iff_toInt_le, hMask]
  exact and_congr_right fun _ => by omega

/-- From width 16 on what fits are the half-words, in either notation. -/
theorem fits_iff_of_le {v : Value} {w : Width} (hw : 16 ≤ w.toNat) :
    fits v w = true ↔ -32768 ≤ v.toInt ∧ v.toInt ≤ 65535 := by
  have hWide : Width.widest ≤ w := by
    rw [UInt8.le_iff_toNat_le]
    exact hw
  rw [fits, if_pos hWide, Bool.and_eq_true, decide_eq_true_eq, decide_eq_true_eq,
    Int32.le_iff_toInt_le, Int32.le_iff_toInt_le]
  rfl

/-- **A word fits a width exactly if cutting it to that width does nothing.** -/
theorem fits_iff_fit_eq {word : Word} {w : Width} :
    fits word.toInt32 w = true ↔ fit word.toInt32 w = word := by
  rw [← Int16.toInt_inj]
  rcases Nat.lt_or_ge w.toNat 16 with hw | hw
  · -- narrow: a residue that is the number itself
    have hPos : (0 : Int) < 2 ^ w.toNat := Int.pow_pos (by decide)
    rw [fits_iff_of_lt hw, toInt_fit_of_lt _ hw, Int16.toInt_toInt32]
    constructor
    · rintro ⟨hNonneg, hLt⟩
      exact Int.emod_eq_of_lt hNonneg hLt
    · intro hSame
      rw [← hSame]
      exact ⟨Int.emod_nonneg _ hPos.ne', Int.emod_lt_of_pos _ hPos⟩
  · -- every word is a half-word
    have hLow := word.le_toInt
    have hHigh := word.toInt_lt
    rw [fits_iff_of_le hw, toInt_fit_of_le _ hw, Int16.toInt_toInt32]
    constructor
    · intro _
      apply Int.bmod_eq_of_le <;> omega
    · intro _
      omega

/-! ## What is left of a value -/

/-- `x` is what is left of the value `v` in `w` bits: congruent to it modulo `2 ^ w`, and in the range of the
words that a pin of that width can hold, which are read with a sign if it is as wide as a word. -/
structure Residue (v : Value) (w : Width) (x : Word) : Prop where
  modEq : x.toInt ≡ v.toInt [ZMOD 2 ^ w.toNat]
  narrow : w.toNat < 16 → 0 ≤ x.toInt ∧ x.toInt ≤ 2 ^ w.toNat - 1
  wide : w.toNat = 16 → -32768 ≤ x.toInt ∧ x.toInt ≤ 32767

/-- **A cut leaves the residue**, and there is only one. -/
theorem fit_eq_iff_residue {v : Value} {w : Width} {x : Word} (hw : w.toNat ≤ 16) :
    fit v w = x ↔ Residue v w x := by
  rw [← Int16.toInt_inj]
  rcases Nat.lt_or_eq_of_le hw with hLt | hEq
  · -- narrow: the least residue that is not negative
    have hPos : (0 : Int) < 2 ^ w.toNat := Int.pow_pos (by decide)
    rw [toInt_fit_of_lt v hLt]
    constructor
    · intro h
      have hLow := Int.emod_nonneg v.toInt hPos.ne'
      have hHigh := Int.emod_lt_of_pos v.toInt hPos
      rw [h] at hLow hHigh
      refine ⟨?_, fun _ => ⟨hLow, by omega⟩, fun h16 => absurd h16 hLt.ne⟩
      rw [← h]
      exact Int.mod_modEq ..
    · rintro ⟨hMod, hNarrow, -⟩
      obtain ⟨hLow, hHigh⟩ := hNarrow hLt
      rw [← hMod, Int.emod_eq_of_lt hLow (by omega)]
  · -- as wide as a word: every word is in range, and congruence decides
    have hLow := x.le_toInt
    have hHigh := x.toInt_lt
    rw [toInt_fit_of_le v (Nat.le_of_eq hEq.symm)]
    constructor
    · intro h
      refine ⟨?_, fun hLt => absurd hEq hLt.ne, fun _ => by omega⟩
      rw [hEq, ← h]
      exact Int.bmod_emod ..
    · rintro ⟨hMod, -, -⟩
      rw [hEq] at hMod
      have hSame : x.toInt % (2 ^ 16 : Nat) = v.toInt % (2 ^ 16 : Nat) := hMod
      rw [← Int.emod_bmod, ← hSame, Int.emod_bmod]
      apply Int.bmod_eq_of_le <;> omega

/-- The word is the value, or is read as the value without a sign if the pin is as wide as a word. -/
def Denotes (x : Word) (w : Width) (v : Value) : Prop :=
  x.toInt = v.toInt ∨ w.toNat = 16 ∧ (x.toUInt16.toNat : Int) = v.toInt

instance (x : Word) (w : Width) (v : Value) : Decidable (Denotes x w v) :=
  inferInstanceAs (Decidable (_ ∨ _))

/-- The reading of a word without a sign. -/
theorem toNat_toUInt16 (x : Word) : (x.toUInt16.toNat : Int) = x.toInt % 2 ^ 16 := by
  have hReading : x.toInt = (x.toUInt16.toNat : Int).bmod (2 ^ 16) := x.toBitVec.toInt_eq_toNat_bmod
  have hLt : x.toUInt16.toNat < 2 ^ 16 := x.toUInt16.toNat_lt
  have hMod := Int.bmod_emod (x := (x.toUInt16.toNat : Int)) (m := 2 ^ 16)
  rw [← hReading] at hMod
  push_cast at hMod
  omega

/-- **A value fits exactly if what is left of it denotes it.** -/
theorem fits_iff_denotes {v : Value} {w : Width} (hw : w.toNat ≤ 16) :
    fits v w = true ↔ Denotes (fit v w) w v := by
  rcases Nat.lt_or_eq_of_le hw with hLt | hEq
  · -- narrow: there is one notation only
    have hPos : (0 : Int) < 2 ^ w.toNat := Int.pow_pos (by decide)
    rw [fits_iff_of_lt hLt, Denotes, toInt_fit_of_lt v hLt]
    constructor
    · rintro ⟨hNonneg, hHigh⟩
      exact .inl (Int.emod_eq_of_lt hNonneg hHigh)
    · rintro (hSame | ⟨h16, -⟩)
      · rw [← hSame]
        exact ⟨Int.emod_nonneg _ hPos.ne', Int.emod_lt_of_pos _ hPos⟩
      · exact absurd h16 hLt.ne
  · have hWide : 16 ≤ w.toNat := Nat.le_of_eq hEq.symm
    have hWord := toInt_fit_of_le v hWide
    have hUnsigned : ((fit v w).toUInt16.toNat : Int) = v.toInt % 2 ^ 16 := by
      rw [toNat_toUInt16, hWord]
      exact Int.bmod_emod ..
    rw [fits_iff_of_le hWide, Denotes, hWord, hUnsigned]
    constructor
    · rintro ⟨hLow, hHigh⟩
      -- the upper half of the range is that of the unsigned readings
      rcases Int.lt_or_le v.toInt 32768 with hSmall | hLarge
      · left
        apply Int.bmod_eq_of_le <;> omega
      · exact .inr ⟨hEq, by omega⟩
    · rintro (hSame | ⟨-, hSame⟩)
      · have hLow := Int.le_bmod (x := v.toInt) (m := 2 ^ 16) (by decide)
        have hHigh := Int.bmod_lt (x := v.toInt) (m := 2 ^ 16) (by decide)
        rw [hSame] at hLow hHigh
        omega
      · omega

/-! ## Bits -/

/-- The lowest bit of a value. -/
def lowBit (v : Value) : Bool := v.toBitVec.getLsbD 0

/-- A bit as a word. -/
def bitWord (bit : Bool) : Word := if bit then 1 else 0

/-- A bit as a word has no other bit set. -/
theorem getLsbD_bitWord (bit : Bool) (i : Nat) :
    (bitWord bit).toBitVec.getLsbD i = (decide (i < 1) && bit) := by
  cases bit with
  | false => simp [bitWord]
  | true =>
    show (1#16).getLsbD i = _
    rw [BitVec.getLsbD_one]
    cases i <;> simp

@[simp] theorem lowBit_bitWord (bit : Bool) : lowBit (bitWord bit).toInt32 = bit := by
  cases bit <;> rfl

/-- One bit is wide enough for a bit. -/
theorem fits_bitWord (bit : Bool) : fits (bitWord bit).toInt32 1 = true := by
  cases bit <;> decide

/-- Of what is written to one bit, the lowest bit is left. -/
theorem fit_one (v : Value) : fit v 1 = bitWord (lowBit v) := by
  apply Int16.toBitVec_inj.mp
  apply BitVec.eq_of_getLsbD_eq
  intro i hi
  rw [getLsbD_fit, getLsbD_bitWord, lowBit]
  cases i <;> simp

/-- Bit logic looks at the lowest bit only. -/
theorem and_one (word : Word) : word &&& 1 = bitWord (lowBit word.toInt32) := by
  apply Int16.toBitVec_inj.mp
  apply BitVec.eq_of_getLsbD_eq
  intro i hi
  rw [getLsbD_bitWord, lowBit, getLsbD_toInt32 word (by decide)]
  show (word.toBitVec &&& 1#16).getLsbD i = _
  rw [BitVec.getLsbD_and, BitVec.getLsbD_one]
  cases i <;> simp

end Breadboard
