import Breadboard.Board
import Breadboard.Chip
import Breadboard.Notice

/-!
# Breadboard — cells

A `Cell` is a chip on pins of the board, one pin for every signal that the chip declares. The
same pin may stand in several places of one cell, as inputs, as outputs or both: a step reads all
inputs before it writes anything, and writes nothing at all unless the chip has given a word for
every output.

* `Cell.wire` puts a chip on pins that are there; their number and widths have to match.
* `Cell.fresh` puts it on new pins, named and sized as the chip declares them.
* `Cell.stepped` computes once.
-/

namespace Breadboard

/-- What a step leaves behind, however it ends. -/
structure Stepped where
  board : Board
  notices : List Notice
  outcome : Except Failure Unit

/-- A chip and the pins that it is connected to, in the order of its signals. -/
structure Cell where
  chip : Chip
  inputs : List PinId
  outputs : List PinId

namespace Cell

/-- Compares the signals on one side of a chip with the pins given for them: first the number of
pins, then the widths in order. -/
def checkSide (b : Board) (chip : String) (side : Side) (signals : List Signal)
    (pins : List PinId) : Except Fault Unit :=
  if signals.length ≠ pins.length then
    .error (.pinCount chip side signals.length pins.length)
  else
    match (signals.zip pins).find? fun (s, p) => s.width != b.widthOf p with
    | some (s, p) => .error (.widthMismatch s!"{chip}.{s.name}" s.width (b.widthOf p))
    | none => .ok ()

/-- A cell on pins that are there. -/
def wire (b : Board) (chip : Chip) (inputs outputs : List PinId) : Except Fault Cell := do
  checkSide b chip.name .input chip.inputs inputs
  checkSide b chip.name .output chip.outputs outputs
  return ⟨chip, inputs, outputs⟩

/-- A cell on new pins, those of the inputs first. -/
def fresh (b : Board) (chip : Chip) : Except Fault (Board × Cell) := do
  let b' ← b.placeAll (chip.inputs ++ chip.outputs)
  let inputs := List.range' b.size chip.inputs.length
  let outputs := List.range' (b.size + chip.inputs.length) chip.outputs.length
  return (b', ← wire b' chip inputs outputs)

/-- What is said about a step from `b` that went well. -/
def notice (c : Cell) (b : Board) : Notice :=
  .cellStepped c.chip.name (b.readAll c.inputs)

/-- One step: read the inputs, compute, and write the outputs if there is a word for each. -/
def stepped (c : Cell) (b : Board) : Stepped :=
  match c.chip.evaluate (b.readAll c.inputs) (Slots.blank c.outputs.length) with
  | .error e => ⟨b, [], .error e⟩
  | .ok slots =>
    match slots.firstUnset with
    | some k =>
      ⟨b, [], .error (.fault (.unassignedOutput c.chip.name (b.nameOf (c.outputs.getD k 0))))⟩
    | none => ⟨b.writeAll (c.outputs.zip slots.words), [c.notice b], .ok ()⟩

end Cell

end Breadboard
