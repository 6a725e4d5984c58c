import Breadboard.Cell

/-!
# Breadboard — circuits and gates

A `Circuit` is a list of cells on common nets. A step runs the cells once each, in the order in
which they were added, so it is for whoever adds them to put a cell after those that it reads
from. When a cell faults the rest is not run, and every output and internal net gets back the
word that it held before the step. A net that was declared as an input is not among those, even
if a cell drives it. A crash ends the step where it is.

A `Gate` is what a part can be made of: one cell, or a circuit.
-/

namespace Breadboard

/-- Cells on common nets. -/
structure Circuit where
  name : String
  inputs : List PinId
  outputs : List PinId
  internals : List PinId
  cells : List Cell

namespace Circuit

/-- Runs cells in order up to the first that fails. -/
def run (circuit : String) : List Cell → Board → Stepped
  | [], b => ⟨b, [], .ok ()⟩
  | c :: cs, b =>
    let done := c.stepped b
    match done.outcome with
    | .ok () =>
      let rest := run circuit cs done.board
      { rest with notices := done.notices ++ rest.notices }
    | .error (.fault f) =>
      { done with notices := done.notices ++ [.cellFaulted circuit c.chip.name f] }
    | .error .crash => done

/-- What is written back after a fault: the words that outputs and internal nets held. -/
def saved (c : Circuit) (b : Board) : List (PinId × Word) :=
  (c.outputs ++ c.internals).map fun p => (p, b.read p)

/-- One step of a circuit. -/
def stepped (c : Circuit) (b : Board) : Stepped :=
  let done := run c.name c.cells b
  match done.outcome with
  | .error (.fault _) => { done with board := done.board.writeAll (c.saved b) }
  | _ => done

end Circuit

/-- What a part can be made of. -/
inductive Gate where
  | cell (c : Cell)
  | circuit (c : Circuit)

namespace Gate

/-- A cell has the name of its chip, a circuit its own. -/
def name : Gate → String
  | cell c => c.chip.name
  | circuit c => c.name

/-- The pins that a gate reads from outside. -/
def inputs : Gate → List PinId
  | cell c => c.inputs
  | circuit c => c.inputs

/-- The pins that a gate is there to write. -/
def outputs : Gate → List PinId
  | cell c => c.outputs
  | circuit c => c.outputs

/-- The nets inside a circuit; a cell has none. -/
def internals : Gate → List PinId
  | cell _ => []
  | circuit c => c.internals

/-- The cells inside a circuit. -/
def cells : Gate → List Cell
  | cell _ => []
  | circuit c => c.cells

/-- One step of a gate. -/
def stepped : Gate → Board → Stepped
  | cell c => c.stepped
  | circuit c => c.stepped

end Gate

end Breadboard
