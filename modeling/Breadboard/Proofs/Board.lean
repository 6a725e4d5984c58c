import Breadboard.Board
import Breadboard.Proofs.Word

/-!
# Breadboard — reading what was written

What a board says about a pin is its `Board.signal?`, which no write changes, and its `Board.read`,
which a write changes at one pin only. Two boards with the same signals and the same words are the
same board (`Board.ext_read`), so every statement on boards below is one on these two.

* `read_write`, `read_write_of_ne` — a write is seen at its own pin, cut to the width there, and at no
  other;
* `read_writeAll_of_not_mem`, `read_writeAll_zip` — the same for many writes;
* `pin?_writeAll_zip` — a pin that is written to more than once keeps the last word;
* `read_writeAll_saved` — writing back what other pins held is seen at exactly those pins;
* `Board.InRange` — the word of a pin is one that the pin's width can hold.
-/

namespace Breadboard

namespace Board

/-- The name and the width of a pin. -/
def signal? (b : Board) (p : PinId) : Option Signal := (b.pin? p).map Pin.toSignal

/-- The width is part of the signal; no pin, no width. -/
theorem widthOf_eq_signal? (b : Board) (p : PinId) :
    b.widthOf p = (b.signal? p).elim 0 Signal.width := by
  unfold widthOf signal?
  cases b.pin? p <;> rfl

/-- Boards that agree on the signal of a pin agree on its width. -/
theorem widthOf_congr {b b' : Board} {p : PinId} (h : b.signal? p = b'.signal? p) :
    b.widthOf p = b'.widthOf p := by
  rw [widthOf_eq_signal?, widthOf_eq_signal?, h]

theorem widthOf_of_signal? {b : Board} {p : PinId} {s : Signal} (h : b.signal? p = some s) :
    b.widthOf p = s.width := by
  rw [widthOf_eq_signal?, h, Option.elim_some]

/-- The name of a pin is that of its signal. -/
theorem nameOf_of_signal? {b : Board} {p : PinId} {s : Signal} (h : b.signal? p = some s) :
    b.nameOf p = s.name := by
  obtain ⟨pin, hPin, rfl⟩ := Option.map_eq_some_iff.mp h
  rw [nameOf, hPin, Option.elim_some]

/-- The numbers that a pin goes by are those below the size. -/
theorem signal?_isSome_iff {b : Board} {p : PinId} : (b.signal? p).isSome ↔ p < b.size := by
  simp [signal?, pin?, size]

theorem lt_size_of_signal? {b : Board} {p : PinId} {s : Signal} (h : b.signal? p = some s) : p < b.size :=
  signal?_isSome_iff.mp (by rw [h, Option.isSome_some])

/-- A board is known by its pins. -/
theorem ext_pin? {b b' : Board} (h : ∀ p, b.pin? p = b'.pin? p) : b = b' := by
  obtain ⟨pins⟩ := b
  obtain ⟨pins'⟩ := b'
  congr 1
  exact Array.ext_getElem? h

/-- A board is known by the signals and the words of its pins. -/
theorem ext_read {b b' : Board} (hSignal : ∀ p, b.signal? p = b'.signal? p)
    (hRead : ∀ p, b.read p = b'.read p) : b = b' := by
  apply ext_pin?
  intro p
  have hS := hSignal p
  have hR := hRead p
  simp only [signal?, read] at hS hR
  -- a pin is there on both boards or on neither, since the signals say which
  cases h : b.pin? p with
  | none => cases h' : b'.pin? p with
    | none => rfl
    | some y => simp [h, h'] at hS
  | some x => cases h' : b'.pin? p with
    | none => simp [h, h'] at hS
    | some y =>
      obtain ⟨s, v⟩ := x
      obtain ⟨s', v'⟩ := y
      simp only [h, h', Option.map_some, Option.some.injEq, Option.elim_some] at hS hR
      rw [hS, hR]

/-! ## One write -/

/-- A write reaches the pin that it names and no other. -/
theorem pin?_write (b : Board) (p q : PinId) (v : Value) :
    (b.write p v).pin? q = if p = q then (b.pin? q).map (·.write v) else b.pin? q := by
  simp only [pin?, write, Array.getElem?_modify]

theorem pin?_write_of_ne {b : Board} {p q : PinId} (h : p ≠ q) (v : Value) :
    (b.write p v).pin? q = b.pin? q := by
  rw [pin?_write, if_neg h]

/-- A write changes neither names nor widths … -/
@[simp] theorem signal?_write (b : Board) (p q : PinId) (v : Value) :
    (b.write p v).signal? q = b.signal? q := by
  unfold signal?
  rw [pin?_write]
  split
  · cases b.pin? q <;> rfl
  · rfl

/-- … so not the width that later writes are cut to … -/
@[simp] theorem widthOf_write (b : Board) (p q : PinId) (v : Value) :
    (b.write p v).widthOf q = b.widthOf q :=
  widthOf_congr (signal?_write b p q v)

/-- … and makes no pins. -/
@[simp] theorem size_write (b : Board) (p : PinId) (v : Value) : (b.write p v).size = b.size := by
  simp [size, write]

/-- A pin reads as what is left of the value in its width. -/
theorem read_write_self {b : Board} {p : PinId} (hp : p < b.size) (v : Value) :
    (b.write p v).read p = fit v (b.widthOf p) := by
  obtain ⟨pin, hPin⟩ : ∃ pin, b.pin? p = some pin := ⟨_, Array.getElem?_eq_getElem hp⟩
  simp [read, widthOf, pin?_write, hPin, Pin.write]

/-- A number that no pin has reads as zero, which is also what is left of a value in no bits at all. -/
theorem read_write (b : Board) (p : PinId) (v : Value) :
    (b.write p v).read p = fit v (b.widthOf p) := by
  by_cases hp : p < b.size
  · exact read_write_self hp v
  · have hNone : b.pin? p = none := Array.getElem?_eq_none (Nat.le_of_not_lt hp)
    -- there is no pin, so there are no bits
    have hNothing : fit v 0 = 0 := by
      rw [← Int16.toInt_inj, toInt_fit_of_lt v (by decide)]
      exact Int.emod_one v.toInt
    rw [read, pin?_write, if_pos rfl, hNone, widthOf, hNone]
    exact hNothing.symm

/-- Other pins read as before. -/
theorem read_write_of_ne {b : Board} {p q : PinId} (h : p ≠ q) (v : Value) :
    (b.write p v).read q = b.read q := by
  rw [read, pin?_write, if_neg h, read]

/-- Writes to different pins may change places. -/
theorem write_comm {b : Board} {p q : PinId} (hNe : p ≠ q) (v u : Value) :
    (b.write p v).write q u = (b.write q u).write p v := by
  apply ext_pin?
  intro r
  rw [pin?_write, pin?_write, pin?_write, pin?_write]
  by_cases hp : p = r
  · subst hp
    rw [if_neg hNe.symm, if_neg hNe.symm]
  · rw [if_neg hp, if_neg hp]

/-! ## Many writes -/

@[simp] theorem writeAll_nil (b : Board) : b.writeAll [] = b := rfl

@[simp] theorem writeAll_cons (b : Board) (p : PinId) (w : Word) (ws : List (PinId × Word)) :
    b.writeAll ((p, w) :: ws) = (b.write p w.toInt32).writeAll ws := rfl

/-- Writing one list after the other is writing them in a row. -/
theorem writeAll_append (b : Board) (ws ws' : List (PinId × Word)) :
    b.writeAll (ws ++ ws') = (b.writeAll ws).writeAll ws' :=
  List.foldl_append

/-- Many writes change names and widths as little as one does. -/
@[simp] theorem signal?_writeAll (b : Board) (ws : List (PinId × Word)) (q : PinId) :
    (b.writeAll ws).signal? q = b.signal? q := by
  induction ws generalizing b with
  | nil => rfl
  | cons a ws ih => rw [writeAll_cons, ih, signal?_write]

@[simp] theorem widthOf_writeAll (b : Board) (ws : List (PinId × Word)) (q : PinId) :
    (b.writeAll ws).widthOf q = b.widthOf q :=
  widthOf_congr (signal?_writeAll b ws q)

/-- Many writes make no pins either. -/
@[simp] theorem size_writeAll (b : Board) (ws : List (PinId × Word)) :
    (b.writeAll ws).size = b.size := by
  induction ws generalizing b with
  | nil => rfl
  | cons a ws ih => rw [writeAll_cons, ih, size_write]

/-- A pin that nothing is written to keeps its word. -/
theorem read_writeAll_of_not_mem {b : Board} {ws : List (PinId × Word)} {q : PinId}
    (h : q ∉ ws.map Prod.fst) : (b.writeAll ws).read q = b.read q := by
  induction ws generalizing b with
  | nil => rfl
  | cons a ws ih =>
    rw [List.map_cons, List.mem_cons, not_or] at h
    rw [writeAll_cons, ih h.2, read_write_of_ne (Ne.symm h.1)]

/-- A pin that nothing is written to stays as it is. -/
theorem pin?_writeAll_of_not_mem {b : Board} {ws : List (PinId × Word)} {q : PinId}
    (h : ∀ w ∈ ws, w.1 ≠ q) : (b.writeAll ws).pin? q = b.pin? q := by
  induction ws generalizing b with
  | nil => rfl
  | cons w ws ih =>
    rw [List.forall_mem_cons] at h
    rw [writeAll_cons, ih h.2, pin?_write_of_ne h.1]

/-- **Of several words for one pin, the last is the one it keeps.** -/
theorem pin?_writeAll_zip {b : Board} {ps : List PinId} {ws : List Word} {k : Nat} {p : PinId}
    {w : Word} (hp : ps[k]? = some p) (hLast : p ∉ ps.drop (k + 1)) (hw : ws[k]? = some w) :
    (b.writeAll (ps.zip ws)).pin? p = (b.pin? p).map (·.write w.toInt32) := by
  induction ps generalizing b ws k with
  | nil => simp at hp
  | cons q ps ih =>
    cases ws with
    | nil => simp at hw
    | cons x ws =>
      rw [List.zip_cons_cons, writeAll_cons]
      cases k with
      | zero =>
        obtain rfl : q = p := by simpa using hp
        obtain rfl : x = w := by simpa using hw
        -- this is the pin, and no later word is for it
        rw [pin?_writeAll_of_not_mem, pin?_write, if_pos rfl]
        rintro ⟨q', y⟩ hZip rfl
        exact hLast (List.of_mem_zip hZip).1
      | succ k =>
        rw [ih (by simpa using hp) hLast (by simpa using hw), pin?_write]
        -- what `q` gets is written over if `q` is the pin
        split
        · rw [Option.map_map]
          rfl
        · rfl

/-- When all pins written to are different, each gets its own word. -/
theorem read_writeAll_zip {b : Board} {ps : List PinId} {ws : List Word} (hNodup : ps.Nodup)
    {k : Nat} {p : PinId} {w : Word} (hp : ps[k]? = some p) (hw : ws[k]? = some w)
    (hSize : p < b.size) : (b.writeAll (ps.zip ws)).read p = fit w.toInt32 (b.widthOf p) := by
  have hLast : p ∉ ps.drop (k + 1) := by
    -- no pin is listed twice, so not behind its own place either
    obtain ⟨hLt, rfl⟩ := List.getElem?_eq_some_iff.mp hp
    have hRest : (ps.drop k).Nodup := hNodup.sublist (List.drop_sublist k ps)
    rw [List.drop_eq_getElem_cons hLt] at hRest
    exact (List.nodup_cons.mp hRest).1
  obtain ⟨pin, hPin⟩ : ∃ pin, b.pin? p = some pin := ⟨_, Array.getElem?_eq_getElem hSize⟩
  rw [read, pin?_writeAll_zip hp hLast hw, widthOf, hPin]
  rfl

/-- **Writing words back.** The pins `ps` get the words that `f` says, in whatever order and
however often they are listed; all other pins are as they were. -/
theorem read_writeAll_saved {b : Board} {ps : List PinId} {f : PinId → Word} {q : PinId}
    (hq : q < b.size) :
    (b.writeAll (ps.map fun p => (p, f p))).read q =
      if q ∈ ps then fit (f q).toInt32 (b.widthOf q) else b.read q := by
  induction ps generalizing b with
  | nil => rfl
  | cons p ps ih =>
    rw [List.map_cons, writeAll_cons, ih (by rwa [size_write]), widthOf_write]
    by_cases hMem : q ∈ ps
    · rw [if_pos hMem, if_pos (List.mem_cons_of_mem p hMem)]
    · rw [if_neg hMem]
      by_cases hEq : p = q
      · subst hEq
        rw [if_pos (List.mem_cons_self ..), read_write_self hq]
      · rw [read_write_of_ne hEq, if_neg]
        rw [List.mem_cons, not_or]
        exact ⟨Ne.symm hEq, hMem⟩

/-! ## Words that fit -/

/-- The word of a pin is one that its width can hold: writing it back changes nothing. A number
that no pin has counts as in range. -/
def InRange (b : Board) (p : PinId) : Prop :=
  fit (b.read p).toInt32 (b.widthOf p) = b.read p

/-- A number that no pin has is in range: no bits hold zero. -/
theorem inRange_of_size_le {b : Board} {p : PinId} (h : b.size ≤ p) : b.InRange p := by
  have hNone : b.pin? p = none := Array.getElem?_eq_none h
  simp only [InRange, read, widthOf, hNone, Option.elim_none]
  decide

/-- A write leaves every pin in range: the one that it reaches holds what was cut to its width. -/
theorem InRange.write {b : Board} {q : PinId} (h : b.InRange q) (p : PinId) (v : Value) :
    (b.write p v).InRange q := by
  unfold InRange
  rw [widthOf_write]
  by_cases hEq : p = q
  · subst hEq
    rw [read_write, fit_toInt32_fit]
  · rw [read_write_of_ne hEq]
    exact h

/-- So do many writes. -/
theorem InRange.writeAll {b : Board} {q : PinId} (h : b.InRange q) (ws : List (PinId × Word)) :
    (b.writeAll ws).InRange q := by
  induction ws generalizing b with
  | nil => exact h
  | cons a ws ih => exact ih (h.write a.1 a.2.toInt32)

end Board

end Breadboard
