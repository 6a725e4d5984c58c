import Breadboard.Chip.Program
import Breadboard.Proofs.Circuit.Wiring

/-!
# Breadboard — what a faulted step leaves behind

When a cell of a circuit faults, the cells before it have written already, and what the outputs and
the internal nets held before the step is written back. Written back is not put back: the word goes
through the cut to the pin's width once more. It comes out as it went in because the words of all
nets are in range, which nothing that can happen to a board changes (`Board.InRange.reaches`).

The inputs of a circuit are not written back, and nothing keeps a part of a plan from driving one.
So a faulted step is not always without effect:

* `read_of_fault` — every net of a circuit after a faulted step;
* `faulted_step_unchanged_iff` — **exactly when a faulted step writes nothing**: the inputs that
  were driven before the fault have to hold the words that they held anyway. In particular this is
  so when no part drives an input;
* `faulted_step_drives_input` — a circuit where it is not so.
-/

namespace Breadboard.Circuit

section Fault

variable {p : Plan} {catalog : Catalog} {b₀ b₁ s : Board} {c : Circuit} {f : Fault}

/-- After a fault, outputs and internal nets are as before the step and inputs are as the cells
before the fault left them. -/
theorem read_of_fault (hBuild : p.build catalog b₀ = .ok (b₁, c)) (hReach : b₁.Reaches s)
    (hFault : (run c.name c.cells s).outcome = .error (.fault f)) {q : PinId} (hq : q ∈ c.nets) :
    (c.stepped s).board.read q =
      if q ∈ c.inputs then (run c.name c.cells s).board.read q else s.read q := by
  have hSignal : s.signal? q = b₁.signal? q :=
    hReach.signal?_of_lt (Plan.lt_size_of_build hBuild hq)
  obtain ⟨ws, hws⟩ := run_eq_writeAll c.name c.cells s
  have hSize : q < (run c.name c.cells s).board.size := by
    rw [hws, Board.size_writeAll, ← Board.signal?_isSome_iff, hSignal, Board.signal?_isSome_iff]
    exact Plan.lt_size_of_build hBuild hq
  have hWidth : (run c.name c.cells s).board.widthOf q = s.widthOf q := by
    rw [hws, Board.widthOf_writeAll]
  rw [stepped_of_fault hFault, saved, Board.read_writeAll_saved hSize, hWidth]
  rcases mem_nets.mp hq with hInput | hSaved
  · have hOther : q ∉ c.outputs ++ c.internals := fun h =>
      Plan.not_mem_inputs_of_build hBuild h hInput
    rw [if_neg hOther, if_pos hInput]
  · rw [if_pos hSaved, if_neg (Plan.not_mem_inputs_of_build hBuild hSaved)]
    -- the cut that the word goes through does nothing to a word in range
    exact (Plan.inRange_of_build hBuild hq).reaches hReach

/-- A pin that is no net of the circuit is out of reach of its steps. -/
theorem read_stepped_of_not_mem (hBuild : p.build catalog b₀ = .ok (b₁, c))
    (hFault : (run c.name c.cells s).outcome = .error (.fault f)) {q : PinId} (hq : q ∉ c.nets) :
    (c.stepped s).board.read q = s.read q := by
  obtain ⟨ran, failed, rest, hCells, hRan, -⟩ := run_eq_error hFault
  -- neither written back nor driven by a cell that ran
  have hSaved : q ∉ (c.saved s).map Prod.fst := by
    simp only [saved, List.map_map, Function.comp_def, List.map_id']
    exact fun h => hq (mem_nets.mpr (.inr h))
  have hDriven : q ∉ Cell.driven ran := by
    intro h
    obtain ⟨cell, hCell, hOut⟩ := Cell.mem_driven.mp h
    have hMem : cell ∈ c.cells := by
      rw [hCells]
      exact List.mem_append_left _ hCell
    exact hq (Plan.cell_pins_of_build hBuild hMem (List.mem_append_right _ hOut))
  rw [stepped_of_fault hFault, Board.read_writeAll_of_not_mem hSaved,
    Cell.read_of_steps hRan hDriven]

/--
**When a faulted step writes nothing.** The step of a built circuit, on any board that lies ahead,
faults at a cell `failed` after the cells `ran`, which leave the board `left`. Whatever they did,
outputs and internal nets get back their words. All nets are as before exactly if each input that
one of the cells `ran` drives holds in `left` the word that it held before. When no cell drives an
input at all, the whole board is as before.
-/
theorem faulted_step_unchanged_iff (hBuild : p.build catalog b₀ = .ok (b₁, c))
    (hReach : b₁.Reaches s) (hFault : (c.stepped s).outcome = .error (.fault f)) :
    ∃ ran failed rest left, c.cells = ran ++ failed :: rest ∧
      Cell.steps ran s = .ok left ∧ failed.step left = .error (.fault f) ∧
      (∀ q ∈ c.outputs ++ c.internals, (c.stepped s).board.read q = s.read q) ∧
      ((∀ q ∈ c.nets, (c.stepped s).board.read q = s.read q) ↔
        ∀ q ∈ c.inputs, q ∈ Cell.driven ran → left.read q = s.read q) ∧
      ((∀ q ∈ c.inputs, q ∉ Cell.driven c.cells) → (c.stepped s).board = s) := by
  rw [stepped_outcome] at hFault
  obtain ⟨ran, failed, rest, hCells, hRan, hFailed⟩ := run_eq_error hFault
  have hRead : ∀ q ∈ c.nets, (c.stepped s).board.read q =
      if q ∈ c.inputs then (run c.name c.cells s).board.read q else s.read q :=
    fun q hq => read_of_fault hBuild hReach hFault hq
  -- an input that was not driven before the fault has its word anyway
  have hIff : (∀ q ∈ c.nets, (c.stepped s).board.read q = s.read q) ↔
      ∀ q ∈ c.inputs, q ∈ Cell.driven ran →
        (run c.name c.cells s).board.read q = s.read q := by
    constructor
    · intro h q hInput _
      have hNet : q ∈ c.nets := mem_nets.mpr (.inl hInput)
      rw [← h q hNet, hRead q hNet, if_pos hInput]
    · intro h q hNet
      rw [hRead q hNet]
      split
      next hInput =>
        by_cases hDriven : q ∈ Cell.driven ran
        · exact h q hInput hDriven
        · exact Cell.read_of_steps hRan hDriven
      next => rfl
  refine ⟨ran, failed, rest, _, hCells, hRan, hFailed, ?_, hIff, ?_⟩
  · intro q hq
    rw [hRead q (mem_nets.mpr (.inr hq)), if_neg (Plan.not_mem_inputs_of_build hBuild hq)]
  · intro hFree
    have hNets : ∀ q ∈ c.nets, (c.stepped s).board.read q = s.read q := by
      refine hIff.mpr fun q hInput hDriven => absurd ?_ (hFree q hInput)
      rw [hCells, Cell.driven_append]
      exact List.mem_append_left _ hDriven
    refine Board.ext_read (fun q => ?_) (fun q => ?_)
    · obtain ⟨ws, hws⟩ := c.stepped_eq_writeAll s
      rw [hws, Board.signal?_writeAll]
    · by_cases hNet : q ∈ c.nets
      · exact hNets q hNet
      · exact read_stepped_of_not_mem hBuild hFault hNet

end Fault

/-! ## Two circuits that fault -/

/-- A chip that refuses every input. -/
def refuse : Chip :=
  Chip.programmed "Refuse" [.bit "in"] [.bit "out"] [.fail "Refuse" "no"]

/-- Two chips to build with. -/
def refusing : Catalog :=
  (Catalog.empty.register "Not" Chip.not).register "Refuse" refuse

/-- An inverter on an internal net, read by a part that faults. -/
def stuck : Plan :=
  { name := "Stuck", inputs := [.bit "a"], outputs := [.bit "out"], internals := [.bit "n"]
    parts := [⟨"Not", [("in", "a"), ("out", "n")]⟩, ⟨"Refuse", [("in", "n"), ("out", "out")]⟩] }

/-- An inverter from an input to the same input, before a part that faults. -/
def latch : Plan :=
  { name := "Latch", inputs := [.bit "a"], outputs := [.bit "out"]
    parts := [⟨"Not", [("in", "a"), ("out", "a")]⟩, ⟨"Refuse", [("in", "a"), ("out", "out")]⟩] }

/-- The inverter has set the internal net when the step of `stuck` faults; afterwards that net is
clear again and the output that was set by hand is still set. -/
theorem faulted_step_unchanged_stuck :
    ∃ b₁ c, stuck.build refusing .empty = .ok (b₁, c) ∧
      (c.stepped (b₁.write 1 1)).outcome = .error (.fault (.evaluation "Refuse" "no")) ∧
      (c.stepped (b₁.write 1 1)).board = b₁.write 1 1 := by
  refine ⟨_, _, rfl, rfl, ?_⟩
  have hBuild : stuck.build refusing .empty = .ok (_, _) := rfl
  obtain ⟨ran, failed, rest, left, -, -, -, -, -, hFree⟩ :=
    faulted_step_unchanged_iff hBuild ⟨[.write 1 1], rfl⟩ rfl
  exact hFree (by decide)

/-- **An input that a part drives is not given back.** The step of `latch` faults, and its input
holds another word than before. -/
theorem faulted_step_drives_input :
    ∃ b₁ c, latch.build refusing .empty = .ok (b₁, c) ∧
      (c.stepped b₁).outcome = .error (.fault (.evaluation "Refuse" "no")) ∧
      ∃ q ∈ c.inputs, b₁.read q = 0 ∧ (c.stepped b₁).board.read q = 1 := by
  exact ⟨_, _, rfl, rfl, 0, by decide, by decide, by decide⟩

end Breadboard.Circuit
