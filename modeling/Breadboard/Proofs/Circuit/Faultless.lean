import Breadboard.Proofs.Chip
import Breadboard.Proofs.Circuit.Footprint
import Breadboard.Proofs.Circuit.Range

/-!
# Breadboard — gates of standard chips never fault

A standard chip takes the words that its inputs can carry, and gives for every output a word that the output
can carry (`Chip.Reliable`). Bit logic gives bits whatever comes in, but selecting and routing pass on what
comes in, so it matters that this is in range. A cell on pins in range, of the widths that its chip asks for,
is **sound** (`Cell.Sound`). It stays so while other cells write, so sound cells step one after the other
(`Cell.exists_steps_of_sound`), and each of them is **clean** when its turn comes (`Cell.Clean`): there is a
word for every output, and no word is cut when it is written.

`Gate.standard_gates_never_fault` says this of every gate that was made of standard chips, on any wiring and
from any board that can be reached.
-/

namespace Breadboard

-- ---------------------------------------------------------------------------
-- Words that fit
-- ---------------------------------------------------------------------------

/-- Zero fits every width. -/
theorem fits_zero (w : Width) : fits (0 : Word).toInt32 w = true :=
  fits_iff_fit_eq.mpr (fit_zero w)

/-- Sixteen bits can carry every word. -/
theorem fits_sixteen (w : Word) : fits w.toInt32 16 = true := by
  have hLow := w.le_toInt
  have hHigh := w.toInt_lt
  rw [fits_iff_of_le (by decide), Int16.toInt_toInt32]
  omega

-- ---------------------------------------------------------------------------
-- Chips
-- ---------------------------------------------------------------------------

/-- Some signals can carry some words, each its own. -/
def Carry (ss : List Signal) (ws : List Word) : Prop :=
  List.Forall₂ (fun s w => fits w.toInt32 s.width = true) ss ws

/-- On words that its inputs can carry, the chip gives for every output a word that the output can
carry. -/
def Chip.Reliable (chip : Chip) : Prop :=
  ∀ ws, Carry chip.inputs ws →
    ∃ (slots : Slots chip.outputs.length) (out : List Word),
      chip.evaluate ws (Slots.blank chip.outputs.length) = .ok slots ∧ slots.toList = out.map some ∧
        Carry chip.outputs out

namespace Chip

/-- What joins the lowest bits is reliable if it makes bits of bits. -/
theorem joining_reliable (name : String) {op : Word → Word → Word}
    (hop : ∀ x y, ∃ z, op (bitWord x) (bitWord y) = bitWord z) : (joining name op).Reliable := by
  intro ws hCarry
  obtain ⟨a, b, rfl⟩ := List.length_eq_two.mp hCarry.length_eq.symm
  refine ⟨_, [op (a &&& 1) (b &&& 1)], rfl, rfl, .cons ?_ .nil⟩
  rw [and_one, and_one]
  obtain ⟨z, hz⟩ := hop (lowBit a.toInt32) (lowBit b.toInt32)
  rw [hz]
  exact fits_bitWord z

/-- What inverts one bit makes a bit. -/
theorem not_reliable : not.Reliable := by
  intro ws hCarry
  obtain ⟨w, rfl⟩ := List.length_eq_one_iff.mp hCarry.length_eq.symm
  refine ⟨_, [~~~w &&& 1], rfl, rfl, .cons ?_ .nil⟩
  rw [and_one]
  exact fits_bitWord _

/-- What inverts a word makes a word. -/
theorem not16_reliable : not16.Reliable := by
  intro ws hCarry
  obtain ⟨w, rfl⟩ := List.length_eq_one_iff.mp hCarry.length_eq.symm
  exact ⟨_, [~~~w], rfl, rfl, .cons (fits_sixteen _) .nil⟩

/-- What is selected is one of the data inputs, which are as wide as the output. -/
theorem selecting_reliable (name : String) (width : Width) : (selecting name width).Reliable := by
  intro ws hCarry
  obtain ⟨a, b, sel, rfl⟩ := List.length_eq_three.mp hCarry.length_eq.symm
  obtain ⟨w, hw, hFits⟩ : ∃ w, inputWord [a, b, sel] (if sel = 0 then 0 else 1) = .ok w ∧
      fits w.toInt32 width = true := by
    cases hCarry with
    | cons ha hRest =>
      cases hRest with
      | cons hb _ =>
        split
        · exact ⟨a, rfl, ha⟩
        · exact ⟨b, rfl, hb⟩
  refine ⟨(Slots.blank 1).set 0 (some w), [w], ?_, rfl, .cons hFits .nil⟩
  show (inputWord [a, b, sel] (if sel = 0 then 0 else 1) >>= fun w => (Slots.blank 1).put 0 w) = _
  rw [hw]
  rfl

/-- What is routed is the data input, of one bit, or zero. -/
theorem routing_reliable (name : String) (selector : Width) (ways : List String) :
    (routing name selector ways).Reliable := by
  intro ws hCarry
  obtain ⟨w, sel, rfl⟩ := List.length_eq_two.mp hCarry.length_eq.symm
  have hFits : fits w.toInt32 1 = true := by
    cases hCarry with
    | cons hw _ => exact hw
  have hLength : (routing name selector ways).outputs.length = ways.length := List.length_map _
  refine ⟨route w sel (Slots.blank _),
    (List.range ways.length).map fun k => if Int16.ofNat k = sel then w else 0, rfl, ?_, ?_⟩
  · -- the words are staged slot by slot …
    apply List.ext_getElem
    · simp [hLength]
    · intro k hk hk'
      simp [route]
  · -- … and each is one bit
    refine List.forall₂_iff_get.mpr ⟨by simp [hLength], fun k hk hk' => ?_⟩
    have hBit : (routing name selector ways).outputs[k].width = 1 := by simp [routing, Signal.bit]
    simp only [List.get_eq_getElem, List.getElem_map, List.getElem_range, hBit]
    split
    · exact hFits
    · exact fits_zero 1

/-- **Every standard chip is reliable.** -/
theorem standard_reliable : ∀ chip ∈ standard, chip.Reliable := by
  simp only [standard, List.forall_mem_cons]
  exact ⟨joining_reliable _ (by decide), not_reliable, joining_reliable _ (by decide),
    joining_reliable _ (by decide), joining_reliable _ (by decide), not16_reliable,
    selecting_reliable _ _, selecting_reliable _ _, routing_reliable _ _ _, routing_reliable _ _ _,
    routing_reliable _ _ _, fun _ hMem => absurd hMem List.not_mem_nil⟩

end Chip

/-- What the standard catalog creates is a standard chip. -/
theorem Catalog.mem_standard_of_create {name : String} {chip : Chip}
    (h : standard.create name = .ok chip) : chip ∈ Chip.standard := by
  rcases mem_of_create_foldl h with hMem | hEmpty
  · exact hMem
  · simp [create, empty] at hEmpty

/-- No signal of a standard chip is without a width, so none can be put on a pin that is not there. -/
theorem Chip.standard_width_ne_zero : ∀ chip ∈ standard, ∀ s ∈ chip.signals, s.width ≠ 0 := by
  decide

-- ---------------------------------------------------------------------------
-- Cells
-- ---------------------------------------------------------------------------

/-- Some pins are there, and each has the width of its signal. -/
def Board.Seats (b : Board) (ss : List Signal) (ps : List PinId) : Prop :=
  List.Forall₂ (fun s p => p < b.size ∧ b.widthOf p = s.width) ss ps

namespace Board.Seats

variable {b b' : Board} {ss : List Signal} {ps : List PinId}

/-- What the comparison of a side with its pins makes sure of. -/
theorem of_checkSide {chip : String} {side : Side} (h : Cell.checkSide b chip side ss ps = .ok ())
    (hWidths : ∀ s ∈ ss, s.width ≠ 0) : b.Seats ss ps := by
  unfold Cell.checkSide at h
  split at h
  · cases h
  next hLength =>
    split at h
    · cases h
    next hNone =>
      rw [ne_eq, not_not] at hLength
      rw [List.find?_eq_none] at hNone
      refine List.forall₂_iff_zip.mpr ⟨hLength, fun {s p} hMem => ?_⟩
      have hWidth : s.width = b.widthOf p := by simpa using hNone (s, p) hMem
      refine ⟨?_, hWidth.symm⟩
      -- a pin that is not there has no width
      by_contra hLt
      have hNone : b.pin? p = none := Array.getElem?_eq_none (Nat.le_of_not_lt hLt)
      refine hWidths s (List.of_mem_zip hMem).1 ?_
      rw [hWidth, widthOf, hNone, Option.elim_none]

/-- Pins stay where they are on all boards ahead. -/
theorem reaches (h : b.Seats ss ps) (hReach : b.Reaches b') : b'.Seats ss ps := by
  refine List.Forall₂.imp (fun s p ⟨hLt, hWidth⟩ => ?_) h
  have hSignal := hReach.signal?_of_lt hLt
  refine ⟨?_, (widthOf_congr hSignal).trans hWidth⟩
  rwa [← signal?_isSome_iff, hSignal, signal?_isSome_iff]

theorem writeAll (h : b.Seats ss ps) (ws : List (PinId × Word)) : (b.writeAll ws).Seats ss ps := by
  refine List.Forall₂.imp (fun s p ⟨hLt, hWidth⟩ => ?_) h
  rw [size_writeAll, widthOf_writeAll]
  exact ⟨hLt, hWidth⟩

/-- Signals can carry the words of their pins, if these are in range. -/
theorem carry (h : b.Seats ss ps) (hRange : ∀ p ∈ ps, b.InRange p) : Carry ss (b.readAll ps) := by
  induction h with
  | nil => exact .nil
  | @cons s p ss ps hHead _ ih =>
    rw [List.forall_mem_cons] at hRange
    refine .cons ?_ (ih hRange.2)
    rw [← hHead.2, fits_iff_fit_eq]
    exact hRange.1

end Board.Seats

namespace Cell

/-- A cell whose chip is reliable, on pins that are there, of the right widths and in range. -/
structure Sound (c : Cell) (b : Board) : Prop where
  chip : c.chip.Reliable
  inputs : b.Seats c.chip.inputs c.inputs
  outputs : b.Seats c.chip.outputs c.outputs
  range : ∀ q ∈ c.inputs, b.InRange q

/-- A sound cell stays sound under writes, which keep all pins in range. -/
theorem Sound.writeAll {c : Cell} {b : Board} (h : c.Sound b) (ws : List (PinId × Word)) :
    c.Sound (b.writeAll ws) :=
  ⟨h.chip, h.inputs.writeAll ws, h.outputs.writeAll ws, fun q hq => (h.range q hq).writeAll ws⟩

/-- A sound cell is sound on all boards ahead. -/
theorem Sound.reaches {c : Cell} {b b' : Board} (h : c.Sound b) (hReach : b.Reaches b') :
    c.Sound b' :=
  ⟨h.chip, h.inputs.reaches hReach, h.outputs.reaches hReach,
    fun q hq => (h.range q hq).reaches hReach⟩

/-- A standard chip on pins that were accepted for it is sound, if the pins are in range. -/
theorem sound_of_wire {b : Board} {chip : Chip} {ins outs : List PinId} {c : Cell}
    (hChip : chip ∈ Chip.standard) (hWire : wire b chip ins outs = .ok c)
    (hRange : ∀ q ∈ c.inputs, b.InRange q) : c.Sound b := by
  obtain ⟨_, hInputs, hWire⟩ := bind_eq_ok_iff.mp hWire
  obtain ⟨_, hOutputs, hWire⟩ := bind_eq_ok_iff.mp hWire
  obtain rfl : ⟨chip, ins, outs⟩ = c := Except.ok.inj hWire
  have hWidths := List.forall_mem_append.mp (Chip.standard_width_ne_zero chip hChip)
  exact ⟨Chip.standard_reliable chip hChip, .of_checkSide hInputs hWidths.1,
    .of_checkSide hOutputs hWidths.2, hRange⟩

/-- A cell is **clean** on a board: the chip computes, there is a word for every output, and the pin holds
the word whole. -/
def Clean (c : Cell) (b : Board) : Prop :=
  ∃ slots, c.chip.evaluate (b.readAll c.inputs) (Slots.blank c.outputs.length) = .ok slots ∧
    ∀ k q, c.outputs[k]? = some q → ∃ w, slots.word? k = some w ∧
      fits w.toInt32 (b.widthOf q) = true ∧ fit w.toInt32 (b.widthOf q) = w

/-- A sound cell is clean: its chip gets words that it was made for. -/
theorem Sound.clean {c : Cell} {b : Board} (h : c.Sound b) : c.Clean b := by
  have hLength : c.chip.outputs.length = c.outputs.length := h.outputs.length_eq
  have hEval := h.chip _ (h.inputs.carry h.range)
  rw [hLength] at hEval
  obtain ⟨slots, out, hEval, hSlots, hCarry⟩ := hEval
  refine ⟨slots, hEval, fun k q hq => ?_⟩
  obtain ⟨hk, rfl⟩ := List.getElem?_eq_some_iff.mp hq
  have hkChip : k < c.chip.outputs.length := by rwa [hLength]
  have hkOut : k < out.length := by rwa [← hCarry.length_eq]
  -- word, signal and pin at one place: the word fits the signal, and the pin is as wide
  have hFits := (List.forall₂_iff_get.mp hCarry).2 k hkChip hkOut
  have hWidth := ((List.forall₂_iff_get.mp h.outputs).2 k hkChip hk).2
  simp only [List.get_eq_getElem] at hFits hWidth
  have hWord : slots.word? k = some out[k] := by
    have hGet : slots[k]? = slots.toList[k]? := by simp
    rw [Slots.word?, hGet, hSlots, List.getElem?_map, List.getElem?_eq_getElem hkOut]
    rfl
  rw [← hWidth] at hFits
  exact ⟨out[k], hWord, hFits, fits_iff_fit_eq.mp hFits⟩

/-- A clean cell steps. -/
theorem Clean.exists_step {c : Cell} {b : Board} (h : c.Clean b) : ∃ b', c.step b = .ok b' := by
  obtain ⟨slots, hEval, hWords⟩ := h
  have hUnset : slots.firstUnset = none := by
    refine Slots.firstUnset_eq_none fun k hk => ?_
    obtain ⟨w, hw, -⟩ := hWords k _ (List.getElem?_eq_getElem hk)
    exact ⟨w, hw⟩
  exact ⟨_, step_eq_ok_iff.mpr ⟨slots, hEval, hUnset, rfl⟩⟩

/-- **Sound cells step one after the other**, since a step only writes. -/
theorem exists_steps_of_sound {cells : List Cell} {b : Board} (h : ∀ c ∈ cells, c.Sound b) :
    ∃ ws, steps cells b = .ok (b.writeAll ws) := by
  obtain ⟨b', hSteps⟩ : ∃ b', steps cells b = .ok b' := by
    induction cells generalizing b with
    | nil => exact ⟨b, rfl⟩
    | cons c cells ih =>
      rw [List.forall_mem_cons] at h
      obtain ⟨b₁, hStep⟩ := h.1.clean.exists_step
      obtain ⟨ws, rfl⟩ := step_eq_writeAll hStep
      obtain ⟨b', hRest⟩ := ih fun c hc => (h.2 c hc).writeAll _
      exact ⟨b', steps_cons_eq_ok_iff.mpr ⟨_, hStep, hRest⟩⟩
  obtain ⟨ws, rfl⟩ := steps_eq_writeAll hSteps
  exact ⟨ws, hSteps⟩

end Cell

-- ---------------------------------------------------------------------------
-- Gates
-- ---------------------------------------------------------------------------

/-- The cell of a part is the chip that the part names, put on pins that were accepted for it. -/
theorem Placement.exists_wire_of_cell {it : Placement} {catalog : Catalog} {b : Board}
    {circuit : String} {net? : String → Option PinId} {c : Cell}
    (h : it.cell catalog b circuit net? = .ok c) :
    ∃ chip ins outs, catalog.create it.chip = .ok chip ∧ Cell.wire b chip ins outs = .ok c := by
  obtain ⟨chip, hChip, h⟩ := bind_eq_ok_iff.mp h
  obtain ⟨-, -, h⟩ := bind_eq_ok_iff.mp h
  obtain ⟨ins, -, h⟩ := bind_eq_ok_iff.mp h
  obtain ⟨outs, -, h⟩ := bind_eq_ok_iff.mp h
  exact ⟨chip, ins, outs, hChip, h⟩

namespace Gate

/-- The cells that a step goes through, in their order. -/
def sequence : Gate → List Cell
  | cell c => [c]
  | circuit c => c.cells

/-- The ways to make a gate of standard chips, with the board that it is on then. -/
inductive Standard : Gate → Board → Prop
  /-- A circuit is built from a plan. -/
  | built {p : Plan} {b b' : Board} {c : Circuit} :
    p.build .standard b = .ok (b', c) → Standard (circuit c) b'
  /-- A chip is put on pins of its own. -/
  | fresh {name : String} {chip : Chip} {b b' : Board} {c : Cell} :
    Catalog.standard.create name = .ok chip → Cell.fresh b chip = .ok (b', c) → Standard (cell c) b'
  /-- A chip is put on pins that are there, any of which may stand in several places. -/
  | wired {name : String} {chip : Chip} {b : Board} {ins outs : List PinId} {c : Cell} :
    Board.empty.Reaches b → Catalog.standard.create name = .ok chip →
      Cell.wire b chip ins outs = .ok c → Standard (cell c) b

/-- **All cells of a gate of standard chips are sound** on the board that it was made on. -/
theorem Standard.sound {g : Gate} {b : Board} (h : g.Standard b) : ∀ c ∈ g.sequence, c.Sound b := by
  cases h with
  | @built p b _ c hBuild =>
    intro cell hCell
    have hCells := hCell
    obtain ⟨hNets, cells, rfl, hParts⟩ := Plan.build_eq_ok_iff.mp hBuild
    obtain ⟨it, -, hIt⟩ := exists_of_forall₂_ok hParts hCell
    obtain ⟨chip, ins, outs, hCreate, hWire⟩ := Placement.exists_wire_of_cell hIt
    -- a cell of a circuit is on nets that were just made
    refine Cell.sound_of_wire (Catalog.mem_standard_of_create hCreate) hWire fun q hq => ?_
    exact Plan.inRange_of_build hBuild
      (Plan.cell_pins_of_build hBuild hCells (List.mem_append_left _ hq))
  | @fresh name chip b _ c hCreate hFresh =>
    obtain ⟨hPlace, hCell⟩ := Cell.fresh_eq_ok hFresh
    have hGrow := Board.placeAll_eq_ok hPlace
    have hNew := Cell.newOn_onNew b chip
    rw [← hCell, ← hGrow] at hNew
    obtain ⟨b₁, -, hFresh⟩ := bind_eq_ok_iff.mp hFresh
    obtain ⟨cell, hWire, hFresh⟩ := bind_eq_ok_iff.mp hFresh
    obtain ⟨rfl, rfl⟩ := Prod.mk.inj (Except.ok.inj hFresh)
    refine List.forall_mem_singleton.mpr
      (Cell.sound_of_wire (Catalog.mem_standard_of_create hCreate) hWire fun q hq => ?_)
    rw [hGrow]
    exact Board.inRange_grow_of_le (hNew q (List.mem_append_left _ hq)).1
  | wired hReach hCreate hWire =>
    exact List.forall_mem_singleton.mpr
      (Cell.sound_of_wire (Catalog.mem_standard_of_create hCreate) hWire
        fun q _ => Board.inRange_of_reaches hReach q)

/-- A step goes through if all cells step. -/
theorem outcome_of_steps {g : Gate} {b b' : Board} (h : Cell.steps g.sequence b = .ok b') :
    (g.stepped b).outcome = .ok () := by
  cases g with
  | circuit c => exact (Circuit.stepped_eq_ok_iff.mpr h).1
  | cell c =>
    obtain ⟨b₁, hStep, -⟩ := Cell.steps_cons_eq_ok_iff.mp h
    rw [stepped, Cell.stepped_of_ok hStep]

/--
**Gates of standard chips never fault.** Let a gate be made of standard chips, on whatever wiring, and let
`s` be a board that lies ahead of the one that it was made on. Then the step from `s` goes through, and each
cell, on the board `left` that the cells before it have left, is clean: its chip computes without a
breakdown, gives a word for every output, and the pin there holds the word as it is.
-/
theorem standard_gates_never_fault {g : Gate} {b s : Board} (hGate : g.Standard b)
    (hReach : b.Reaches s) :
    (g.stepped s).outcome = .ok () ∧
      ∀ ran cell rest, g.sequence = ran ++ cell :: rest →
        ∃ left, Cell.steps ran s = .ok left ∧ cell.Clean left := by
  have hSound : ∀ c ∈ g.sequence, c.Sound s := fun c hc => (hGate.sound c hc).reaches hReach
  constructor
  · obtain ⟨ws, hSteps⟩ := Cell.exists_steps_of_sound hSound
    exact outcome_of_steps hSteps
  · intro ran cell rest hSplit
    -- the cells before this one have only written, so it is still sound
    rw [hSplit, List.forall_mem_append, List.forall_mem_cons] at hSound
    obtain ⟨ws, hSteps⟩ := Cell.exists_steps_of_sound hSound.1
    exact ⟨_, hSteps, (hSound.2.1.writeAll ws).clean⟩

/-- A router and a selector that read what they drive, the input of the circuit among it. -/
def knot : Plan where
  name := "Knot"
  inputs := [.bit "x"]
  outputs := [.bit "y"]
  parts := [⟨"DMux", [("in", "x"), ("sel", "y"), ("a", "y"), ("b", "x")]⟩,
    ⟨"Mux", [("a", "y"), ("b", "x"), ("sel", "x"), ("out", "y")]⟩]

/-- The knot steps from a board on which its input was given too large a value. The second cell is clean on
what the first has left; and a router with one pin in all four places is clean as well. -/
theorem standard_gates_never_fault_knot :
    ∃ b₁ c, knot.build .standard .empty = .ok (b₁, c) ∧
      (c.stepped (b₁.write 0 7)).outcome = .ok () ∧
      (c.stepped (b₁.write 0 7)).board.readAll c.nets = [0, 1] ∧
      (∃ left, Cell.steps [⟨.dmux, [0, 1], [1, 0]⟩] (b₁.write 0 7) = .ok left ∧
        Cell.Clean ⟨.mux, [1, 0, 0], [1]⟩ left) ∧
      Cell.Clean ⟨.dmux, [0, 0], [0, 0]⟩ (b₁.write 0 7) := by
  have hBuild : knot.build .standard .empty = .ok (Board.empty.grow knot.nets,
    knot.circuit 0 [⟨.dmux, [0, 1], [1, 0]⟩, ⟨.mux, [1, 0, 0], [1]⟩]) := rfl
  have hWritten := (Board.Reaches.refl (Board.empty.grow knot.nets)).change (.write 0 7)
  obtain ⟨hOutcome, hCells⟩ := standard_gates_never_fault (.built hBuild) hWritten
  -- the nets of the knot, and the router on the first of them
  have hEmpty : Board.empty.Reaches (Board.empty.grow knot.nets) :=
    ⟨[.place (.bit "x"), .place (.bit "y")], rfl⟩
  have hWire : Cell.wire (Board.empty.grow knot.nets) .dmux [0, 0] [0, 0] =
    .ok ⟨.dmux, [0, 0], [0, 0]⟩ := rfl
  obtain ⟨-, hRouter⟩ := standard_gates_never_fault
    (.wired hEmpty (show Catalog.standard.create "DMux" = .ok .dmux from rfl) hWire) hWritten
  obtain ⟨left, hLeft, hClean⟩ := hRouter [] _ [] rfl
  obtain rfl : _ = left := Except.ok.inj hLeft
  exact ⟨_, _, hBuild, hOutcome, rfl, hCells _ _ [] rfl, hClean⟩

end Gate

end Breadboard
