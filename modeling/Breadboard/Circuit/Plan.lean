import Breadboard.Catalog
import Breadboard.Circuit

/-!
# Breadboard — plans of circuits

A `Plan` declares the nets of a circuit and the parts on them; `Plan.build` makes the circuit.
Inputs, outputs and internal nets share one set of names. A part names a chip of the catalog and
says for each of the chip's signals which net it is connected to.

The first thing that is wrong is the one that is reported. The nets come first, in the order
inputs, outputs, internals, and for each its width before its name; then part by part the chip,
the connections as they are listed, the chip's signals as the chip declares them, and last the
widths.
-/

namespace Breadboard

/-- A part of a plan: a chip, and which net each of its signals is connected to. -/
structure Placement where
  chip : String
  connections : List (String × String)
deriving DecidableEq

/-- The nets and parts of a circuit to be built. -/
structure Plan where
  name : String
  inputs : List Signal := []
  outputs : List Signal := []
  internals : List Signal := []
  parts : List Placement := []
deriving DecidableEq

namespace Plan

/-! ## Declaring -/

/-- Declares an input net. -/
def input (p : Plan) (net : Signal) : Plan := { p with inputs := p.inputs ++ [net] }

/-- Declares an output net. -/
def output (p : Plan) (net : Signal) : Plan := { p with outputs := p.outputs ++ [net] }

/-- Declares a net inside the circuit. -/
def internal (p : Plan) (net : Signal) : Plan := { p with internals := p.internals ++ [net] }

/-- Adds a part; parts run in the order in which they are added. -/
def part (p : Plan) (it : Placement) : Plan := { p with parts := p.parts ++ [it] }

/-- All nets, in the order in which they are made. -/
def nets (p : Plan) : List Signal := p.inputs ++ p.outputs ++ p.internals

end Plan

/-! ## Nets -/

/-- Adds a pin for every net of the circuit called `circuit`; a net may not have the name of an
earlier one (`seen`). -/
def Board.placeNets (b : Board) (circuit : String) (seen : List String) :
    List Signal → Except Fault Board
  | [] => .ok b
  | s :: ss => do
    let pin ← Pin.ofSignal s
    if s.name ∈ seen then
      .error (.duplicatePin circuit s.name)
    else
      (b.place pin).placeNets circuit (s.name :: seen) ss

/-- The pin of the net called `name`, when the nets have the numbers from `base` on. -/
def netPin? (base : PinId) (nets : List Signal) (name : String) : Option PinId :=
  (nets.findIdx? fun s => s.name == name).map (base + ·)

/-! ## Parts -/

namespace Placement

/-- Looks through connections for a signal that occurs twice or that the chip does not have. -/
def check (part : String) (signals : List String) (seen : List String) :
    List (String × String) → Except Fault Unit
  | [] => .ok ()
  | (pin, _) :: rest =>
    if pin ∈ seen then .error (.duplicatePin part pin)
    else if pin ∉ signals then .error (.unknownPin part pin)
    else check part signals (pin :: seen) rest

/-- The pin that a signal of the chip is connected to. -/
def resolve (it : Placement) (circuit : String) (net? : String → Option PinId)
    (pin : String) : Except Fault PinId :=
  match it.connections.lookup pin with
  | none => .error (.unknownPin it.chip pin)
  | some net =>
    match net? net with
    | none => .error (.unknownPin circuit net)
    | some p => .ok p

/-- The cell that a part of a plan stands for. -/
def cell (it : Placement) (catalog : Catalog) (b : Board) (circuit : String)
    (net? : String → Option PinId) : Except Fault Cell := do
  let chip ← catalog.create it.chip
  check it.chip ((chip.inputs ++ chip.outputs).map Signal.name) [] it.connections
  let inputs ← chip.inputs.mapM fun s => it.resolve circuit net? s.name
  let outputs ← chip.outputs.mapM fun s => it.resolve circuit net? s.name
  Cell.wire b chip inputs outputs

end Placement

/-! ## Building -/

namespace Plan

/-- Makes the nets on the board and the cells on the nets. -/
def build (p : Plan) (catalog : Catalog) (b : Board) : Except Fault (Board × Circuit) := do
  let b' ← b.placeNets p.name [] p.nets
  let net? := netPin? b.size p.nets
  let cells ← p.parts.mapM fun it => it.cell catalog b' p.name net?
  -- the nets have the numbers from `b.size` on, in the order of `p.nets`
  let outputs := b.size + p.inputs.length
  let internals := outputs + p.outputs.length
  return (b',
    { name := p.name
      inputs := List.range' b.size p.inputs.length
      outputs := List.range' outputs p.outputs.length
      internals := List.range' internals p.internals.length
      cells := cells })

/-- What is said about a circuit that was built. -/
def notice (p : Plan) : Notice :=
  .circuitBuilt p.name p.parts.length

end Plan

end Breadboard
