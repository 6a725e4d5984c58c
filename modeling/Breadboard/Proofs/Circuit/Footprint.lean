import Breadboard.Proofs.Circuit.Acceptance

/-!
# Breadboard — the footprint of a gate

A gate knows the board by its own pins (`Gate.pins`) and by nothing else. Two boards that have the same
pins there (`Board.AgreeOn`) are stepped in the same way: the step ends the same way on both, and the
same words are written to both, all of them to pins of the gate (`Gate.stepped_of_agreeOn`). So nothing
that happens elsewhere on the board reaches a gate, and a gate reaches nothing elsewhere
(`Gate.pin?_stepped_of_not_mem`). A gate that is built is on pins that were not there before
(`Gate.NewOn`); that of a single chip can be built whenever its pins can be made (`Cell.fresh_eq`).
-/

namespace Breadboard

namespace Board

-- ---------------------------------------------------------------------------
-- Boards that agree on some pins
-- ---------------------------------------------------------------------------

/-- Some pins are the same on both boards, with name, width and word. -/
def AgreeOn (ps : List PinId) (b b' : Board) : Prop :=
  ∀ p ∈ ps, b.pin? p = b'.pin? p

namespace AgreeOn

variable {ps : List PinId} {b b' : Board}

theorem refl (ps : List PinId) (b : Board) : AgreeOn ps b b := fun _ _ => rfl

/-- Boards that agree read alike there … -/
theorem readAll (h : AgreeOn ps b b') {qs : List PinId} (hqs : ∀ q ∈ qs, q ∈ ps) :
    b.readAll qs = b'.readAll qs := by
  refine List.map_congr_left fun q hq => ?_
  rw [read, read, h q (hqs q hq)]

/-- … call the pins by the same names … -/
theorem nameOf (h : AgreeOn ps b b') {q : PinId} (hq : q ∈ ps) : b.nameOf q = b'.nameOf q := by
  rw [Board.nameOf, Board.nameOf, h q hq]

/-- … and find the same pin under a name. -/
theorem find? (h : AgreeOn ps b b') {qs : List PinId} (hqs : ∀ q ∈ qs, q ∈ ps) (name : String) :
    b.find? qs name = b'.find? qs name := by
  unfold Board.find?
  induction qs with
  | nil => rfl
  | cons q qs ih =>
    rw [List.forall_mem_cons] at hqs
    rw [List.find?_cons, List.find?_cons, h.nameOf hqs.1, ih hqs.2]

/-- The same write on both leaves them in agreement. -/
theorem write (h : AgreeOn ps b b') (q : PinId) (v : Value) :
    AgreeOn ps (b.write q v) (b'.write q v) := by
  intro p hp
  rw [pin?_write, pin?_write, h p hp]

/-- So do the same writes. -/
theorem writeAll (h : AgreeOn ps b b') (ws : List (PinId × Word)) :
    AgreeOn ps (b.writeAll ws) (b'.writeAll ws) := by
  induction ws generalizing b b' with
  | nil => exact h
  | cons w ws ih => exact ih (h.write w.1 w.2.toInt32)

end AgreeOn

end Board

open Board

-- ---------------------------------------------------------------------------
-- Cells
-- ---------------------------------------------------------------------------

/-- A slot that is unset is one of the slots. -/
theorem Slots.lt_of_firstUnset {n : Nat} {s : Slots n} {k : Nat} (h : s.firstUnset = some k) :
    k < n := by
  obtain ⟨hLt, -⟩ := List.findIdx?_eq_some_iff_getElem.mp h
  rwa [Vector.length_toList] at hLt

/-- A cell fails in the same way on both boards, or writes the same words to its outputs. -/
theorem Cell.step_of_agreeOn {c : Cell} {ps : List PinId} {b b' : Board}
    (hPins : ∀ q ∈ c.inputs ++ c.outputs, q ∈ ps) (h : AgreeOn ps b b') :
    (∃ e, c.step b = .error e ∧ c.step b' = .error e) ∨
      ∃ ws : List (PinId × Word), c.step b = .ok (b.writeAll ws) ∧ c.step b' = .ok (b'.writeAll ws) ∧
        ∀ w ∈ ws, w.1 ∈ c.outputs := by
  rw [List.forall_mem_append] at hPins
  -- the chip is given the same words
  rw [step_eq, step_eq, ← h.readAll hPins.1]
  cases c.chip.evaluate (b.readAll c.inputs) (Slots.blank c.outputs.length) with
  | error e => exact .inl ⟨e, rfl, rfl⟩
  | ok slots =>
    cases hUnset : slots.firstUnset with
    | some k =>
      -- the fault names the output that has no word, which is one of the pins
      have hk := Slots.lt_of_firstUnset hUnset
      have hOutput : c.outputs.getD k 0 ∈ ps := by
        rw [List.getD_eq_getElem?_getD, List.getElem?_eq_getElem hk, Option.getD_some]
        exact hPins.2 _ (List.getElem_mem hk)
      refine .inl ⟨.fault (.unassignedOutput c.chip.name (b.nameOf (c.outputs.getD k 0))), ?_, ?_⟩
      · simp only [bind, Except.bind, hUnset]
      · simp only [bind, Except.bind, hUnset, h.nameOf hOutput]
    | none =>
      refine .inr ⟨c.outputs.zip slots.words, ?_, ?_, fun w hw => (List.of_mem_zip hw).1⟩
      · simp only [bind, Except.bind, hUnset]
      · simp only [bind, Except.bind, hUnset]

-- ---------------------------------------------------------------------------
-- Circuits and gates
-- ---------------------------------------------------------------------------

/-- The pins that a gate is on: what it reads from outside, what it is there to write, its nets and the
pins of its cells. -/
def Gate.pins : Gate → List PinId
  | .cell c => c.inputs ++ c.outputs
  | .circuit c => c.nets ++ c.cells.flatMap fun cell => cell.inputs ++ cell.outputs

theorem Gate.mem_pins_of_input {g : Gate} {q : PinId} (hq : q ∈ g.inputs) : q ∈ g.pins := by
  cases g with
  | cell c => exact List.mem_append_left _ hq
  | circuit c => exact List.mem_append_left _ (Circuit.mem_nets.mpr (.inl hq))

theorem Gate.mem_pins_of_output {g : Gate} {q : PinId} (hq : q ∈ g.outputs) : q ∈ g.pins := by
  cases g with
  | cell c => exact List.mem_append_right _ hq
  | circuit c =>
    exact List.mem_append_left _ (Circuit.mem_nets.mpr (.inr (List.mem_append_left _ hq)))

theorem Gate.mem_pins_of_internal {g : Gate} {q : PinId} (hq : q ∈ g.internals) : q ∈ g.pins := by
  cases g with
  | cell c => cases hq
  | circuit c =>
    exact List.mem_append_left _ (Circuit.mem_nets.mpr (.inr (List.mem_append_right _ hq)))

/-- What two steps from two boards have in common: they end the same way, and write the same words, to
pins of a list. -/
structure Stepped.Alike (ps : List PinId) (b b' : Board) (s s' : Stepped) : Prop where
  outcome : s.outcome = s'.outcome
  writes : ∃ ws : List (PinId × Word), s.board = b.writeAll ws ∧ s'.board = b'.writeAll ws ∧
    ∀ w ∈ ws, w.1 ∈ ps

/-- Cells on pins where the boards agree run alike, up to the same cell if they fail. -/
theorem Circuit.run_of_agreeOn (name : String) {cells : List Cell} {ps : List PinId} {b b' : Board}
    (hPins : ∀ c ∈ cells, ∀ q ∈ c.inputs ++ c.outputs, q ∈ ps) (h : AgreeOn ps b b') :
    Stepped.Alike ps b b' (run name cells b) (run name cells b') := by
  induction cells generalizing b b' with
  | nil => exact ⟨rfl, [], rfl, rfl, by simp⟩
  | cons c cells ih =>
    rw [List.forall_mem_cons] at hPins
    rcases Cell.step_of_agreeOn hPins.1 h with ⟨e, he, he'⟩ | ⟨ws, hws, hws', hOut⟩
    · obtain ⟨hBoard, hOutcome⟩ := run_cons_of_error name cells he
      obtain ⟨hBoard', hOutcome'⟩ := run_cons_of_error name cells he'
      exact ⟨hOutcome.trans hOutcome'.symm, [], hBoard, hBoard', by simp⟩
    · rw [run_cons_of_ok name cells hws, run_cons_of_ok name cells hws']
      -- after the same writes the boards agree as before
      obtain ⟨hOutcome, ws', hBoard, hBoard', hMem⟩ := ih hPins.2 (h.writeAll ws)
      refine ⟨hOutcome, ws ++ ws', ?_, ?_, ?_⟩
      · rw [writeAll_append]
        exact hBoard
      · rw [writeAll_append]
        exact hBoard'
      · rw [List.forall_mem_append]
        exact ⟨fun w hw => hPins.1 _ (List.mem_append_right _ (hOut w hw)), hMem⟩

/-- A circuit steps alike on boards that agree on its pins. -/
theorem Circuit.stepped_of_agreeOn {c : Circuit} {b b' : Board}
    (h : AgreeOn (Gate.circuit c).pins b b') :
    Stepped.Alike (Gate.circuit c).pins b b' (c.stepped b) (c.stepped b') := by
  have hPins : ∀ cell ∈ c.cells, ∀ q ∈ cell.inputs ++ cell.outputs, q ∈ (Gate.circuit c).pins :=
    fun cell hCell q hq => List.mem_append_right _ (List.mem_flatMap.mpr ⟨cell, hCell, hq⟩)
  -- what would be written back is read from outputs and internal nets, which are among the pins
  have hSaved : c.saved b = c.saved b' := by
    refine List.map_congr_left fun q hq => ?_
    rw [Board.read, Board.read, h q (List.mem_append_left _ (Circuit.mem_nets.mpr (.inr hq)))]
  obtain ⟨hOutcome, ws, hBoard, hBoard', hMem⟩ := run_of_agreeOn c.name hPins h
  by_cases hFault : ∃ f, (run c.name c.cells b).outcome = .error (.fault f)
  · -- what is written back was the same on both boards
    obtain ⟨f, hf⟩ := hFault
    rw [stepped_of_fault hf, stepped_of_fault (hOutcome ▸ hf)]
    refine ⟨hOutcome, ws ++ c.saved b, ?_, ?_, ?_⟩
    · rw [writeAll_append, hBoard]
    · rw [writeAll_append, hBoard', hSaved]
    · rw [List.forall_mem_append]
      refine ⟨hMem, fun w hw => ?_⟩
      obtain ⟨q, hq, rfl⟩ := List.mem_map.mp hw
      exact List.mem_append_left _ (Circuit.mem_nets.mpr (.inr hq))
  · rw [stepped_eq_run fun f hf => hFault ⟨f, hf⟩,
      stepped_eq_run fun f hf => hFault ⟨f, hOutcome ▸ hf⟩]
    exact ⟨hOutcome, ws, hBoard, hBoard', hMem⟩

/-- **A gate knows the board by its pins.** On boards that agree there, its step ends the same way and
writes the same words. -/
theorem Gate.stepped_of_agreeOn {g : Gate} {b b' : Board} (h : AgreeOn g.pins b b') :
    Stepped.Alike g.pins b b' (g.stepped b) (g.stepped b') := by
  cases g with
  | circuit c => exact c.stepped_of_agreeOn h
  | cell c =>
    show Stepped.Alike _ b b' (c.stepped b) (c.stepped b')
    rcases Cell.step_of_agreeOn (fun _ hq => hq) h with ⟨e, he, he'⟩ | ⟨ws, hws, hws', hOut⟩
    · rw [Cell.stepped_of_error he, Cell.stepped_of_error he']
      exact ⟨rfl, [], rfl, rfl, by simp⟩
    · rw [Cell.stepped_of_ok hws, Cell.stepped_of_ok hws']
      exact ⟨rfl, ws, rfl, rfl, fun w hw => List.mem_append_right _ (hOut w hw)⟩

/-- A gate changes its own pins only. -/
theorem Gate.pin?_stepped_of_not_mem {g : Gate} {b : Board} {q : PinId} (hq : q ∉ g.pins) :
    (g.stepped b).board.pin? q = b.pin? q := by
  obtain ⟨-, ws, hBoard, -, hMem⟩ := g.stepped_of_agreeOn (AgreeOn.refl g.pins b)
  rw [hBoard]
  exact pin?_writeAll_of_not_mem fun w hw hEq => hq (hEq ▸ hMem w hw)

/-- No step makes pins. -/
theorem Gate.size_stepped (g : Gate) (b : Board) : (g.stepped b).board.size = b.size := by
  obtain ⟨ws, hBoard⟩ := g.stepped_eq_writeAll b
  rw [hBoard, size_writeAll]

-- ---------------------------------------------------------------------------
-- New gates
-- ---------------------------------------------------------------------------

namespace Board

/-- Pins that can all be made are the pins that the board grows by. -/
theorem placeAll_eq_ok {b b' : Board} {ss : List Signal} (h : b.placeAll ss = .ok b') :
    b' = b.grow ss := by
  induction ss generalizing b with
  | nil =>
    obtain rfl : b = b' := Except.ok.inj h
    simp [grow]
  | cons s ss ih =>
    obtain ⟨pin, hPin, hRest⟩ := bind_eq_ok_iff.mp h
    rw [ih hRest, grow_cons]
    unfold Pin.ofSignal at hPin
    split at hPin
    · rw [Except.ok.inj hPin]
    · cases hPin

end Board

/-- A gate on new pins: they have the numbers that the board has grown by. -/
def Gate.NewOn (g : Gate) (b b' : Board) : Prop :=
  ∀ q ∈ g.pins, b.size ≤ q ∧ q < b'.size

namespace Cell

/-- The cell of a chip on new pins with the numbers from `base` on. -/
def onNew (base : PinId) (chip : Chip) : Cell where
  chip := chip
  inputs := List.range' base chip.inputs.length
  outputs := List.range' (base + chip.inputs.length) chip.outputs.length

/-- The new pins have the signals of the chip, and hold zero. -/
theorem forall₂_onNew (b : Board) (chip : Chip) :
    List.Forall₂ (fun s q => (b.grow chip.signals).pin? q = some ⟨s, 0⟩) chip.inputs
        (onNew b.size chip).inputs ∧
      List.Forall₂ (fun s q => (b.grow chip.signals).pin? q = some ⟨s, 0⟩) chip.outputs
        (onNew b.size chip).outputs := by
  have hInputs := b.map_pin?_grow [] chip.inputs chip.outputs
  have hOutputs := b.map_pin?_grow chip.inputs chip.outputs []
  rw [List.append_nil] at hOutputs
  -- a list of pins compared with a list of signals, place by place
  have hEach : ∀ {ss : List Signal} {qs : List PinId},
      qs.map (b.grow chip.signals).pin? = ss.map (fun s => some ⟨s, 0⟩) →
      List.Forall₂ (fun s q => (b.grow chip.signals).pin? q = some ⟨s, 0⟩) ss qs := by
    intro ss qs h
    rw [← List.forall₂_eq_eq_eq, List.forall₂_map_left_iff, List.forall₂_map_right_iff] at h
    exact h.flip
  exact ⟨hEach hInputs, hEach hOutputs⟩

/-- **A chip can be put on new pins** if the pins can be made. -/
theorem fresh_eq (b : Board) (chip : Chip) :
    fresh b chip = b.placeAll chip.signals >>= fun b' => .ok (b', onNew b.size chip) := by
  show (b.placeAll chip.signals >>= _) = _
  cases hPlace : b.placeAll chip.signals with
  | error f => rfl
  | ok b' =>
    obtain rfl := Board.placeAll_eq_ok hPlace
    obtain ⟨hInputs, hOutputs⟩ := forall₂_onNew b chip
    -- the new pins were made for these signals, so the wiring is accepted
    have hWidth : ∀ (s : Signal) (q : PinId), (b.grow chip.signals).pin? q = some ⟨s, 0⟩ →
        s.width = (b.grow chip.signals).widthOf q := by
      intro s q hPin
      rw [Board.widthOf, hPin, Option.elim_some]
    have hWire : wire (b.grow chip.signals) chip (onNew b.size chip).inputs
        (onNew b.size chip).outputs = .ok (onNew b.size chip) := by
      rw [wire, checkSide_eq_ok (hInputs.imp hWidth), checkSide_eq_ok (hOutputs.imp hWidth)]
      rfl
    show (wire (b.grow chip.signals) chip (onNew b.size chip).inputs
      (onNew b.size chip).outputs >>= _) = _
    rw [hWire]
    rfl

/-- The new pins, in order. -/
theorem pins_onNew (base : PinId) (chip : Chip) :
    (Gate.cell (onNew base chip)).pins = List.range' base chip.signals.length := by
  show List.range' base chip.inputs.length ++
    List.range' (base + chip.inputs.length) chip.outputs.length = _
  rw [List.range'_append_1, Chip.signals, List.length_append]

/-- The cell of a chip on new pins is on no others. -/
theorem newOn_onNew (b : Board) (chip : Chip) :
    (Gate.cell (onNew b.size chip)).NewOn b (b.grow chip.signals) := by
  intro q hq
  rwa [pins_onNew, List.mem_range'_1, ← size_grow] at hq

/-- What comes of putting a chip on new pins. -/
theorem fresh_eq_ok {b b' : Board} {chip : Chip} {c : Cell} (h : fresh b chip = .ok (b', c)) :
    b.placeAll chip.signals = .ok b' ∧ c = onNew b.size chip := by
  rw [fresh_eq] at h
  obtain ⟨b₁, hPlace, h⟩ := bind_eq_ok_iff.mp h
  obtain ⟨rfl, rfl⟩ := Prod.mk.inj (Except.ok.inj h)
  exact ⟨hPlace, rfl⟩

end Cell

/-- A circuit that was built is on new pins only. -/
theorem Plan.newOn_of_build {p : Plan} {catalog : Catalog} {b b' : Board} {c : Circuit}
    (h : p.build catalog b = .ok (b', c)) : (Gate.circuit c).NewOn b b' := by
  have hNets : ∀ q ∈ c.nets, b.size ≤ q ∧ q < b'.size := by
    intro q hq
    have hRange := hq
    rw [nets_of_build h, List.mem_range'_1] at hRange
    exact ⟨hRange.1, lt_size_of_build h hq⟩
  intro q hq
  rcases List.mem_append.mp hq with hq | hq
  · -- a net, or a pin of a cell, which is a net too
    exact hNets q hq
  · obtain ⟨cell, hCell, hq⟩ := List.mem_flatMap.mp hq
    exact hNets q (cell_pins_of_build h hCell hq)

end Breadboard
