import Breadboard.Proofs.Circuit.Rollback

/-!
# Breadboard — the exact outcome of a step

What a step of a circuit leaves behind, for any wiring: cells may read what they drive themselves, a
net may have several drivers, and a cell may drive an input of the circuit. Nothing is asked of the
order of the cells either. Two things can happen, unless a chip breaks down (`Chip.NeverCrashes`):

* all cells step, and the board is the one that the last of them left;
* a cell faults. Its fault is the outcome, and the cells after it have no part in anything. Outputs and
  internal nets are as before the step, inputs as the cells before the fault left them.

A pin that no cell drives keeps its word however the step ends (`read_stepped_of_not_driven`).
`step_exact_outcome` is the whole statement.
-/

namespace Breadboard

/-! ## Chips that do not break down -/

/-- Given a word for every input and a slot for every output, the chip computes or faults, but does
not break down. -/
def Chip.NeverCrashes (chip : Chip) : Prop :=
  ∀ ws : List Word, ws.length = chip.inputs.length →
    chip.evaluate ws (Slots.blank chip.outputs.length) ≠ .error .crash

/-- The inverter finds the one input that it looks at. -/
theorem Chip.not_neverCrashes : Chip.not.NeverCrashes := by
  intro ws hLength
  obtain ⟨w, rfl⟩ := List.length_eq_one_iff.mp hLength
  exact nofun

/-- There are as many pins on each side of a cell as the chip has signals there. -/
def Cell.Complete (c : Cell) : Prop :=
  c.inputs.length = c.chip.inputs.length ∧ c.outputs.length = c.chip.outputs.length

/-- A cell breaks down only in its chip. -/
theorem Cell.step_eq_crash_iff {c : Cell} {b : Board} :
    c.step b = .error .crash ↔
      c.chip.evaluate (b.readAll c.inputs) (Slots.blank c.outputs.length) = .error .crash := by
  rw [step_eq]
  cases c.chip.evaluate (b.readAll c.inputs) (Slots.blank c.outputs.length) with
  | error e => simp [bind, Except.bind]
  | ok slots =>
    cases hUnset : slots.firstUnset with
    | some k => simp [bind, Except.bind, hUnset]
    | none => simp [bind, Except.bind, hUnset]

/-- A cell with a pin for every signal, and a chip that does not break down, does not break down. -/
theorem Cell.step_ne_crash {c : Cell} (hComplete : c.Complete) (hChip : c.chip.NeverCrashes)
    (b : Board) : c.step b ≠ .error .crash := by
  obtain ⟨hInputs, hOutputs⟩ := hComplete
  have hWords : (b.readAll c.inputs).length = c.chip.inputs.length := by
    rw [Board.readAll, List.length_map, hInputs]
  have hEval := hChip (b.readAll c.inputs) hWords
  rw [← hOutputs] at hEval
  rw [Ne, step_eq_crash_iff]
  exact hEval

/-- The cells of a circuit that was built have a pin for every signal. -/
theorem Plan.complete_of_build {p : Plan} {catalog : Catalog} {b b' : Board} {c : Circuit}
    (h : p.build catalog b = .ok (b', c)) : ∀ cell ∈ c.cells, cell.Complete := by
  intro cell hCell
  obtain ⟨-, cells, rfl, hCells⟩ := build_eq_ok_iff.mp h
  obtain ⟨it, -, hIt⟩ := exists_of_forall₂_ok hCells hCell
  obtain ⟨-, hInputs, hOutputs⟩ := Placement.cell_eq_ok hIt
  exact ⟨hInputs.length_eq.symm, hOutputs.length_eq.symm⟩

namespace Circuit

/-! ## Runs -/

/-- Cells that step hand the board over to those after them. -/
theorem run_append (name : String) {ran : List Cell} {b left : Board}
    (h : Cell.steps ran b = .ok left) (rest : List Cell) :
    run name (ran ++ rest) b =
      { run name rest left with
        notices := (run name ran b).notices ++ (run name rest left).notices } := by
  induction ran generalizing b with
  | nil =>
    obtain rfl : b = left := by simpa [Cell.steps] using h
    rfl
  | cons c cs ih =>
    obtain ⟨b₁, hStep, hRest⟩ := Cell.steps_cons_eq_ok_iff.mp h
    rw [List.cons_append, run_cons_of_ok name _ hStep, run_cons_of_ok name _ hStep, ih hRest]
    rfl

/-- **The cells after a fault have no part in the run.** -/
theorem run_of_fault (name : String) {ran : List Cell} {failed : Cell} {b left : Board} {f : Fault}
    (hRan : Cell.steps ran b = .ok left) (hFailed : failed.step left = .error (.fault f))
    (rest : List Cell) :
    run name (ran ++ failed :: rest) b =
      ⟨left, (run name ran b).notices ++ [.cellFaulted name failed.chip.name f],
        .error (.fault f)⟩ := by
  rw [run_append name hRan, run_cons_of_fault name rest hFailed]

/-- A run, failed or not, leaves the words on pins that no cell drives. -/
theorem read_run_of_not_driven {name : String} {cells : List Cell} {b : Board} {q : PinId}
    (hq : q ∉ Cell.driven cells) : (run name cells b).board.read q = b.read q := by
  cases h : (run name cells b).outcome with
  | ok _ => exact Cell.read_of_steps ((run_eq_ok_iff name).mp ⟨h, rfl⟩) hq
  | error e =>
    obtain ⟨ran, failed, rest, hCells, hRan, -⟩ := run_eq_error h
    -- only the cells before the failure have written
    rw [hCells, Cell.driven_append, List.mem_append, not_or] at hq
    exact Cell.read_of_steps hRan hq.1

section Built

variable {p : Plan} {catalog : Catalog} {b₀ b₁ s : Board} {c : Circuit}

/-- A pin that no cell drives keeps its word, whether the step goes through, faults or crashes. -/
theorem read_stepped_of_not_driven (hBuild : p.build catalog b₀ = .ok (b₁, c))
    (hReach : b₁.Reaches s) {q : PinId} (hq : q ∉ Cell.driven c.cells) :
    (c.stepped s).board.read q = s.read q := by
  by_cases hFault : ∃ f, (run c.name c.cells s).outcome = .error (.fault f)
  · obtain ⟨f, hf⟩ := hFault
    by_cases hNet : q ∈ c.nets
    · rw [read_of_fault hBuild hReach hf hNet, read_run_of_not_driven hq, ite_self]
    · exact read_stepped_of_not_mem hBuild hf hNet
  · rw [stepped_eq_run fun f hf => hFault ⟨f, hf⟩]
    exact read_run_of_not_driven hq

/-- Unless a chip breaks down, all cells step or one of them faults. -/
theorem steps_or_fault {cells : List Cell} (hComplete : ∀ cell ∈ cells, cell.Complete)
    (hChips : ∀ cell ∈ cells, cell.chip.NeverCrashes) (b : Board) :
    (∃ t, Cell.steps cells b = .ok t) ∨
      ∃ ran failed rest left f, cells = ran ++ failed :: rest ∧
        Cell.steps ran b = .ok left ∧ failed.step left = .error (.fault f) := by
  cases h : (run "" cells b).outcome with
  | ok _ => exact .inl ⟨_, (run_eq_ok_iff "").mp ⟨h, rfl⟩⟩
  | error e =>
    obtain ⟨ran, failed, rest, hCells, hRan, hFailed⟩ := run_eq_error h
    -- the cell that failed is one of the cells, so it did not crash
    have hMem : failed ∈ cells := by
      rw [hCells]
      exact List.mem_append_right _ (List.mem_cons_self ..)
    cases e with
    | fault f => exact .inr ⟨ran, failed, rest, _, f, hCells, hRan, hFailed⟩
    | crash =>
      exact absurd hFailed (Cell.step_ne_crash (hComplete failed hMem) (hChips failed hMem) _)

/--
**The exact outcome of a step**, from any board `s` that lies ahead of the one the circuit was built
on. `Cell.steps ran s = .ok left` says that `left` is the board after the cells `ran`.

* If all cells step, the step goes through and leaves the board that the last cell left.
* If the cells `ran` step and leave `left`, and the next cell faults there, the outcome is its fault;
  outputs and internal nets hold the words that they held in `s`, inputs those that they hold in
  `left`. Whatever cells came after it, the step would have been the same.
* If no chip of the circuit breaks down, one of the two is the case.
* A pin that no cell drives keeps its word in all cases.
-/
theorem step_exact_outcome (hBuild : p.build catalog b₀ = .ok (b₁, c)) (hReach : b₁.Reaches s) :
    (∀ t, Cell.steps c.cells s = .ok t →
      (c.stepped s).outcome = .ok () ∧ (c.stepped s).board = t) ∧
    (∀ ran failed rest left f, c.cells = ran ++ failed :: rest →
      Cell.steps ran s = .ok left → failed.step left = .error (.fault f) →
      (c.stepped s).outcome = .error (.fault f) ∧
      (∀ q ∈ c.outputs ++ c.internals, (c.stepped s).board.read q = s.read q) ∧
      (∀ q ∈ c.inputs, (c.stepped s).board.read q = left.read q) ∧
      ∀ later, { c with cells := ran ++ failed :: later }.stepped s = c.stepped s) ∧
    ((∀ cell ∈ c.cells, cell.chip.NeverCrashes) →
      (∃ t, Cell.steps c.cells s = .ok t) ∨
      ∃ ran failed rest left f, c.cells = ran ++ failed :: rest ∧
        Cell.steps ran s = .ok left ∧ failed.step left = .error (.fault f)) ∧
    (∀ q, q ∉ Cell.driven c.cells → (c.stepped s).board.read q = s.read q) := by
  refine ⟨fun t hSteps => stepped_eq_ok_iff.mpr hSteps, ?_,
    fun hChips => steps_or_fault (Plan.complete_of_build hBuild) hChips s,
    fun q hq => read_stepped_of_not_driven hBuild hReach hq⟩
  intro ran failed rest left f hCells hRan hFailed
  -- the run ends at the fault; what remains is what is written back
  have hRun := run_of_fault c.name hRan hFailed rest
  rw [← hCells] at hRun
  have hFault : (run c.name c.cells s).outcome = .error (.fault f) := by rw [hRun]
  refine ⟨by rw [stepped_outcome, hFault], fun q hq => ?_, fun q hq => ?_, fun later => ?_⟩
  · rw [read_of_fault hBuild hReach hFault (mem_nets.mpr (.inr hq)),
      if_neg (Plan.not_mem_inputs_of_build hBuild hq)]
  · rw [read_of_fault hBuild hReach hFault (mem_nets.mpr (.inl hq)), if_pos hq, hRun]
  · -- both runs end at the fault with the same board, and write back the same words
    have hRunLater := run_of_fault c.name hRan hFailed later
    have hFaultLater : (run c.name (ran ++ failed :: later) s).outcome = .error (.fault f) := by
      rw [hRunLater]
    rw [stepped_of_fault hFault, stepped_of_fault hFaultLater, hRun, hRunLater]
    rfl

end Built

/-- An inverter that drives the input that it reads, an internal net with two drivers of which one
reads it, and a part that faults in the end. -/
def tangle : Plan :=
  { name := "Tangle", inputs := [.bit "a"], outputs := [.bit "out"], internals := [.bit "n"]
    parts := [⟨"Not", [("in", "a"), ("out", "a")]⟩, ⟨"Not", [("in", "a"), ("out", "n")]⟩,
      ⟨"Not", [("in", "n"), ("out", "n")]⟩, ⟨"Refuse", [("in", "n"), ("out", "out")]⟩] }

/-- The inverters of `tangle` have set all nets when the last part faults; the internal net is clear
again afterwards, the input is not, and the output that was set by hand is still set. -/
theorem step_exact_outcome_tangle :
    ∃ b₁ c left, tangle.build refusing .empty = .ok (b₁, c) ∧ c.nets = [0, 1, 2] ∧
      (∀ cell ∈ c.cells, cell.chip.NeverCrashes) ∧
      Cell.steps (c.cells.take 3) (b₁.write 1 1) = .ok left ∧ left.readAll c.nets = [1, 1, 1] ∧
      (c.stepped (b₁.write 1 1)).outcome = .error (.fault (.evaluation "Refuse" "no")) ∧
      (c.stepped (b₁.write 1 1)).board.read 0 = 1 ∧
      (c.stepped (b₁.write 1 1)).board.read 1 = 1 ∧
      (c.stepped (b₁.write 1 1)).board.read 2 = 0 := by
  have hBuild : tangle.build refusing .empty = .ok (_, tangle.circuit 0
    [⟨.not, [0], [0]⟩, ⟨.not, [0], [2]⟩, ⟨.not, [2], [2]⟩, ⟨refuse, [2], [1]⟩]) := rfl
  have hRefuse : refuse.NeverCrashes := fun _ _ => nofun
  obtain ⟨-, hFault, -, -⟩ := step_exact_outcome hBuild ⟨[.write 1 1], rfl⟩
  obtain ⟨hOutcome, hSaved, hInputs, -⟩ :=
    hFault [⟨.not, [0], [0]⟩, ⟨.not, [0], [2]⟩, ⟨.not, [2], [2]⟩] ⟨refuse, [2], [1]⟩ [] _ _ rfl rfl rfl
  refine ⟨_, _, _, hBuild, rfl, ?_, rfl, rfl, hOutcome, hInputs 0 (by decide), hSaved 1 (by decide),
    hSaved 2 (by decide)⟩
  -- three inverters and a chip that only faults
  intro cell hCell
  simp only [Plan.circuit, List.mem_cons, List.not_mem_nil, or_false] at hCell
  rcases hCell with rfl | rfl | rfl | rfl
  · exact Chip.not_neverCrashes
  · exact Chip.not_neverCrashes
  · exact Chip.not_neverCrashes
  · exact hRefuse

end Circuit

end Breadboard
