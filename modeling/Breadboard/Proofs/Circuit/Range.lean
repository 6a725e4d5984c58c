import Breadboard.Proofs.Circuit.Acceptance

/-!
# Breadboard — pins in range

A pin is **proper** (`Pin.Proper`) if its width is one that a pin can have and its word is one that the
width can hold, which can be said by comparing and by cutting. All pins of a board that came about by
changes are proper (`Board.proper_of_reaches`), and of such a board

* `Board.write_read` — a pin that is given its own word stays as it is;
* `Board.read_restored` — pins that are given back the words that they held hold them again, whatever was
  written in between. It is what a circuit relies on when it takes its writes back.
-/

namespace Breadboard

/-- The width is one that a pin can have, and the word one that the width can hold. -/
structure Pin.Proper (pin : Pin) : Prop where
  width : 1 ≤ pin.width ∧ pin.width ≤ 16
  fits : pin.fits pin.value.toInt32 = true
  fit : fit pin.value.toInt32 pin.width = pin.value

namespace Board

variable {b : Board}

-- ---------------------------------------------------------------------------
-- Boards that came about by changes
-- ---------------------------------------------------------------------------

/-- All words are in range on a board that came about by changes. -/
theorem inRange_of_reaches (h : empty.Reaches b) (p : PinId) : b.InRange p :=
  InRange.reaches h (inRange_of_size_le (Nat.zero_le p))

/-- No change makes a pin of an invalid width. -/
theorem isValid_change {q : PinId} {s : Signal} (x : Change)
    (h : ∀ q s, b.signal? q = some s → s.width.isValid = true)
    (hs : (b.change x).signal? q = some s) : s.width.isValid = true := by
  cases x with
  | place t =>
    simp only [change, Pin.ofSignal] at hs
    split at hs
    next pin hPin =>
      split at hPin
      next hValid =>
        obtain rfl := Except.ok.inj hPin
        rw [signal?, pin?_place] at hs
        split at hs
        · obtain rfl := Option.some.inj hs
          exact hValid
        · exact h q s hs
      next => cases hPin
    next => exact h q s hs
  -- only a new pin brings a width with it
  | write p v => exact h q s (by rwa [← signal?_write b p q v])
  | step g =>
    obtain ⟨ws, hws⟩ := g.stepped_eq_writeAll b
    rw [change, hws, signal?_writeAll] at hs
    exact h q s hs

/-- All widths are valid on a board that came about by changes. -/
theorem isValid_of_reaches (h : empty.Reaches b) {q : PinId} {s : Signal}
    (hs : b.signal? q = some s) : s.width.isValid = true := by
  obtain ⟨xs, rfl⟩ := h
  -- the changes are taken one by one, from a board on which all widths are valid
  have hAll : ∀ (xs : List Change) (b : Board), (∀ q s, b.signal? q = some s → s.width.isValid = true) →
      ∀ q s, (xs.foldl change b).signal? q = some s → s.width.isValid = true := by
    intro xs
    induction xs with
    | nil => exact fun b hb => hb
    | cons x xs ih => exact fun b hb => ih (b.change x) fun q s => isValid_change x hb
  refine hAll xs empty (fun q s hNone => ?_) q s hs
  simp [signal?, pin?, empty] at hNone

/-- **All pins are proper** on a board that came about by changes. -/
theorem proper_of_reaches (h : empty.Reaches b) {p : PinId} {pin : Pin} (hp : b.pin? p = some pin) :
    pin.Proper := by
  have hFit : Breadboard.fit pin.value.toInt32 pin.width = pin.value := by
    have hRange := inRange_of_reaches h p
    simpa only [InRange, read, widthOf, hp, Option.elim_some] using hRange
  refine ⟨?_, fits_iff_fit_eq.mpr hFit, hFit⟩
  have hSignal : b.signal? p = some pin.toSignal := by rw [signal?, hp, Option.map_some]
  exact Width.isValid_iff.mp (isValid_of_reaches h hSignal)

-- ---------------------------------------------------------------------------
-- Writing back
-- ---------------------------------------------------------------------------

/-- A pin that is given the word that it holds stays as it is. -/
theorem write_read {p : PinId} (h : b.InRange p) : b.write p (b.read p).toInt32 = b := by
  apply ext_pin?
  intro q
  rw [pin?_write]
  split
  next hEq =>
    subst hEq
    cases hp : b.pin? p with
    | none => rfl
    | some pin =>
      have hFit : Breadboard.fit pin.value.toInt32 pin.width = pin.value := by
        simpa only [InRange, read, widthOf, hp, Option.elim_some] using h
      simp only [Option.map_some, read, hp, Option.elim_some, Pin.write, hFit]
  next => rfl

/-- Writing back what pins hold changes nothing, whichever pins they are. -/
theorem writeAll_read (h : ∀ p, b.InRange p) (ps : List PinId) :
    b.writeAll (ps.map fun p => (p, b.read p)) = b := by
  induction ps with
  | nil => rfl
  | cons p ps ih => rw [List.map_cons, writeAll_cons, write_read (h p), ih]

/-- No pin, no word. -/
theorem read_of_size_le {q : PinId} (h : b.size ≤ q) : b.read q = 0 := by
  have hNone : b.pin? q = none := Array.getElem?_eq_none h
  rw [read, hNone, Option.elim_none]

/-- **Pins that are given back their words hold them again**, whatever was written in between. -/
theorem read_restored {q : PinId} (h : b.InRange q) (ws : List (PinId × Word)) {ps : List PinId}
    (hq : q ∈ ps) : ((b.writeAll ws).writeAll (ps.map fun p => (p, b.read p))).read q = b.read q := by
  rcases Nat.lt_or_ge q b.size with hLt | hGe
  · have hSize : q < (b.writeAll ws).size := by rwa [size_writeAll]
    rw [read_writeAll_saved hSize, if_pos hq, widthOf_writeAll]
    exact h
  · -- there is no such pin, neither before nor after
    rw [read_of_size_le hGe, read_of_size_le]
    rwa [size_writeAll, size_writeAll]

end Board

end Breadboard
