import Breadboard.Proofs.Board

/-!
# Breadboard — words that are passed from pin to pin

A word is passed on by reading it from one pin and writing it to the next (`Board.passOn`), and every write
cuts it. What arrives at the end of a chain of pins is what one write to the narrowest of them would have
left (`Board.read_passOn`), whatever order the widths come in and however often a pin is passed.

A cut is computed with numbers of 32 bits, by a shift and a subtraction that could both go wrong. `fit?` and
`fits?` compute the same with every shift and subtraction checked, and they always give a result
(`fit?_eq`, `fits?_eq`): `fit` asks for the mask of a width only after making it small, and `fits` only if it
is small. The mask itself does overflow, from width 32 on.
-/

namespace Breadboard

-- ---------------------------------------------------------------------------
-- Cuts with checked arithmetic
-- ---------------------------------------------------------------------------

/-- `x` shifted to the left. There is no result if the amount is not below the number of bits, or if bits
are lost. -/
def shiftLeft? (x amount : UInt32) : Option UInt32 :=
  if amount.toNat < 32 ∧ x.toNat * 2 ^ amount.toNat < 2 ^ 32 then some (x <<< amount) else none

/-- The difference, if it is not below zero. -/
def sub? (x y : UInt32) : Option UInt32 :=
  if y ≤ x then some (x - y) else none

/-- `Width.mask`, checked. -/
def Width.mask? (w : Width) : Option UInt32 := do
  sub? (← shiftLeft? 1 w.toUInt32) 1

/-- `fit`, checked. -/
def fit? (v : Value) (w : Width) : Option Word := do
  let mask ← Width.mask? (min w Width.widest)
  return (v.toUInt32 &&& mask).toUInt16.toInt16

/-- `fits`, checked. -/
def fits? (v : Value) (w : Width) : Option Bool :=
  if Width.widest ≤ w then
    return -32768 ≤ v && v ≤ 65535
  else do
    let mask ← Width.mask? w
    return 0 ≤ v && v ≤ mask.toInt32

/-- Up to width 31 the checked mask is the plain one. -/
theorem Width.mask?_eq {w : Width} (hw : w.toNat < 32) : w.mask? = some w.mask := by
  have hPow : 2 ^ w.toNat < 2 ^ 32 := Nat.pow_lt_pow_right (by decide) hw
  -- the one is not shifted out, and so there is something to subtract from
  have hBit : shiftLeft? 1 w.toUInt32 = some (1 <<< w.toUInt32) := by
    refine if_pos ⟨hw, ?_⟩
    show 1 * 2 ^ w.toNat < 2 ^ 32
    omega
  have hOne : (1 : UInt32) ≤ 1 <<< w.toUInt32 := by
    rw [UInt32.le_iff_toNat_le, toNat_one_shiftLeft hw]
    exact Nat.one_le_two_pow
  unfold mask?
  rw [hBit]
  exact if_pos hOne

-- with no guard before it the mask overflows
example : Width.mask? 31 = some 0x7fffffff ∧ Width.mask? 32 = none := by decide

/-- **No cut overflows**, since no width above the widest one gets to the shift. -/
theorem fit?_eq (v : Value) (w : Width) : fit? v w = some (fit v w) := by
  have hWidth : (min w Width.widest).toNat = min w.toNat 16 := Width.toNat_min w Width.widest
  unfold fit?
  rw [Width.mask?_eq (by omega)]
  rfl

/-- **No comparison overflows**, since the wide case does without a mask. -/
theorem fits?_eq (v : Value) (w : Width) : fits? v w = some (fits v w) := by
  unfold fits? fits
  split
  · rfl
  next hNarrow =>
    have hw : w.toNat < 16 := by
      rw [UInt8.le_iff_toNat_le] at hNarrow
      exact Nat.lt_of_not_le hNarrow
    rw [Width.mask?_eq (by omega)]
    rfl

-- ---------------------------------------------------------------------------
-- Chains of pins
-- ---------------------------------------------------------------------------

namespace Board

/-- Writes `v` to the first of some pins, and to each other one the word that the pin before it holds by
then. -/
def passOn (b : Board) (v : Value) : List PinId → Board
  | [] => b
  | p :: ps => (b.write p v).passOn ((b.write p v).read p).toInt32 ps

/-- **What arrives is what the narrowest pin would have kept.** -/
theorem read_passOn (b : Board) (v : Value) (ps : List PinId) (p : PinId) :
    ∃ q ∈ ps ++ [p], (∀ q' ∈ ps ++ [p], b.widthOf q ≤ b.widthOf q') ∧
      (b.passOn v (ps ++ [p])).read p = fit v (b.widthOf q) := by
  induction ps generalizing b v with
  | nil =>
    refine ⟨p, List.mem_singleton_self p, ?_, read_write b p v⟩
    intro q' hq'
    rw [List.mem_singleton.mp hq']
    exact UInt8.le_refl _
  | cons r ps ih =>
    -- what is passed on from `r` was cut there, and the rest of the chain cuts that
    obtain ⟨q, hq, hNarrowest, hRead⟩ := ih (b.write r v) ((b.write r v).read r).toInt32
    simp only [widthOf_write] at hNarrowest hRead
    rw [read_write, fit_fit] at hRead
    rw [List.cons_append]
    -- the narrowest pin is the first one or the narrowest of the rest
    by_cases hrq : b.widthOf r ≤ b.widthOf q
    · have hMin : min (b.widthOf r) (b.widthOf q) = b.widthOf r := if_pos hrq
      refine ⟨r, List.mem_cons_self .., ?_, ?_⟩
      · rw [List.forall_mem_cons]
        exact ⟨UInt8.le_refl _, fun q' hq' => UInt8.le_trans hrq (hNarrowest q' hq')⟩
      · rw [passOn, read_write, hRead, hMin]
    · have hMin : min (b.widthOf r) (b.widthOf q) = b.widthOf q := if_neg hrq
      refine ⟨q, List.mem_cons_of_mem r hq, ?_, ?_⟩
      · rw [List.forall_mem_cons]
        exact ⟨UInt8.le_of_lt (UInt8.not_le.mp hrq), hNarrowest⟩
      · rw [passOn, read_write, hRead, hMin]

end Board

/--
**Cuts compose.** For all values and all 256 widths,

* cutting to one width and the result, widened again, to another is cutting once to the smaller one;
* nothing overflows on the way, neither when a value is cut nor when it is asked whether it fits;
* a value that is passed along a chain of pins arrives at the last one as if it had been cut once, to the
  width of the narrowest.
-/
theorem cuts_compose :
    (∀ (v : Value) (a b : Width), fit (fit v a).toInt32 b = fit v (min a b)) ∧
    (∀ (v : Value) (w : Width), fit? v w = some (fit v w) ∧ fits? v w = some (fits v w)) ∧
    ∀ (b : Board) (v : Value) (ps : List PinId) (p : PinId),
      ∃ q ∈ ps ++ [p], (∀ q' ∈ ps ++ [p], b.widthOf q ≤ b.widthOf q') ∧
        (b.passOn v (ps ++ [p])).read p = fit v (b.widthOf q) :=
  ⟨fit_fit, fun v w => ⟨fit?_eq v w, fits?_eq v w⟩, Board.read_passOn⟩

end Breadboard
