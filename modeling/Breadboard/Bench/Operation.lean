import Breadboard.Bench
import Breadboard.Network.Fanout

/-!
# Breadboard — operating parts

What can be done with the parts on a bench:

* `Bench.setInput` writes a value to an input. A value that the pin cannot hold is reported, and
  then written all the same, cut to the pin's width. The trace shows which came first
  (`Bench.writePin`).
* `Bench.recompute` steps the gate. A fault is reported and handed back; after a step that went
  well a part with a display shows its pins to its view, if that is still there.
* `Bench.attach` gives a part a view, and the view the part's reporter to complain to.
-/

namespace Breadboard.Bench

/-- The wording for a value that a pin cannot hold. -/
def lossyMessage (v : Value) (width : Width) (pin : String) : String :=
  s!"Value {v} does not fit in {width}-bit pin '{pin}'"

/-- Writes a value to a pin, and leaves a record of it. -/
def writePin (b : Bench) (p : PinId) (v : Value) : Bench :=
  { b with board := b.board.write p v }.note (.pinWritten p v)

/-- Reports a value that a pin of a part cannot hold. -/
def reportLossy (b : Bench) (part : Part) (message : String) : Bench :=
  (b.note (.lossyWrite part.name message)).withNetwork (·.announce part.reporter (some message))

/-- Writes a value to the first input of that name. -/
def setInput (b : Bench) (part : Part) (pin : String) (v : Value) : Except Fault Unit × Bench :=
  match b.board.find? part.gate.inputs pin with
  | none => (.error (.unknownPin part.name pin), b)
  | some p =>
    let width := b.board.widthOf p
    -- whoever listens hears of it while the pin still holds its old word
    let b := if fits v width then b else b.reportLossy part (lossyMessage v width pin)
    (.ok (), b.writePin p v)

/-- The word of the first of some pins that has the given name. -/
def readPin (b : Bench) (part : Part) (pins : List PinId) (pin : String) : Except Fault Word :=
  match b.board.find? pins pin with
  | none => .error (.unknownPin part.name pin)
  | some p => .ok (b.board.read p)

/-- A view sends a message to the reporter that it was given. Says whether there was one to hear
it; only then does the message get an identity. -/
def raise (b : Bench) (view : View) (message : Option String) : Bool × Bench :=
  match view.reporter with
  | none => (false, b)
  | some r =>
    if b.network.alive (.reporter r) then
      let (id, b) := b.takeId
      (true, b.withNetwork (·.pass r ⟨id, view.handle, message⟩))
    else
      (false, b)

/-- The view that a part shows its pins to, if it has a display and the view is still there. -/
def audience (b : Bench) (part : Part) : Option View :=
  if part.hasDisplay then
    (part.view.bind (b.views[·]?)).filter View.owned
  else
    none

/-- The view of a part takes the next reaction off its script. -/
def turnPage (b : Bench) (part : Part) : Bench :=
  match part.view with
  | some i => { b with views := b.views.modify i fun v => { v with script := v.script.tail } }
  | none => b

/-- A view is shown the pins of a part. -/
def present (b : Bench) (part : Part) (view : View) : Bench :=
  (b.turnPage part).emit (.shown view.handle (b.board.readings part.gate.inputs)
    (b.board.readings part.gate.outputs))

/-- A view does what its script says next, short of breaking down. -/
def react (b : Bench) (view : View) : Bench :=
  let b := b.withNetwork (·.after (.perform view.next.deeds))
  match view.next.complaint with
  | some message => (b.raise view (some message)).2
  | none => b

/-- What the view of a part does when it is shown the pins. The part is being stepped, and keeps its
reporter for as long, whatever the view lets go of. -/
def respond (b : Bench) (part : Part) (view : View) : Bench :=
  ((b.withNetwork (·.beginCall part.reporter)).react view).withNetwork (·.endCall part.reporter)

/-- Shows the pins of a part to its view, which follows its script and may break down. -/
def display (b : Bench) (part : Part) : Except Failure Unit × Bench :=
  match b.audience part with
  | none => (.ok (), b)
  | some view =>
    (if view.next.crashes then .error .crash else .ok (), (b.present part view).respond part view)

/-- Steps the gate of the part with number `i`. -/
def recompute (b : Bench) (i : Nat) (part : Part) : Except Failure Unit × Bench :=
  let b := { b with parts := b.parts.modify i fun p => { p with phase := .running } }
  let done := part.gate.stepped b.board
  let b := { b with board := done.board }.noteAll done.notices
  match done.outcome with
  | .error (.fault f) =>
    (.error (.fault f), (b.note (.partFaulted part.name f)).withNetwork
      (·.announce part.reporter (some f.message)))
  | .error .crash => (.error .crash, b)
  | .ok () =>
    -- a view that breaks down takes the rest of the step with it, but the pins are written
    match b.display part with
    | (.ok (), b) => (.ok (), b.note (.partStepped part.name part.id))
    | failed => failed

/-- Gives the part with number `i` the view with number `v`. -/
def attach (b : Bench) (i : Nat) (part : Part) (v : Nat) : Bench :=
  { b with
    parts := b.parts.modify i fun p => { p with view := some v }
    views := b.views.modify v fun view =>
      if view.deaf then view else { view with reporter := some part.reporter } }

end Breadboard.Bench
