import Breadboard.Bench.Assembly
import Breadboard.Bench.Operation
import Breadboard.Circuit.Plan
import Breadboard.Dump

/-!
# Breadboard — commands

The whole bench as a machine: `Bench.run` takes a `Command`, which names things by handle, and
gives a `Reply` and the bench afterwards. What happened on the way is in the trace, which starts
empty with every command.

A command that makes a thing binds its handle only if the thing could be made; otherwise whatever
the handle stood for stays as it is. A command that names a handle which stands for nothing of the
right kind does nothing and is told so (`Reply.noHandle`).
-/

namespace Breadboard

/-- What can be asked of a bench. -/
inductive Command where
  /-- Makes a part of a chip, on new pins. -/
  | part (handle chip : String) (display : Bool)
  /-- Makes a part of a circuit. -/
  | circuit (handle : String) (plan : Plan) (display : Bool)
  /-- Makes a pin that belongs to no part. -/
  | pin (handle : String) (signal : Signal)
  /-- Makes a part of a chip, on pins that are there. -/
  | wire (handle chip : String) (inputs outputs : List String) (display : Bool)
  /-- Makes the parts of a setup document; their handles are numbered. -/
  | setup (handle text : String)
  /-- Makes a reporter that belongs to no part. -/
  | reporter (handle name : String)
  /-- Makes a listener, which breaks down at every event or where its script says so. -/
  | listener (handle : String) (crashes : Bool) (script : List Response)
  /-- Makes a view. When its script is used up, it goes on with that complaint and breakdown. -/
  | view (handle : String) (deaf : Bool) (complaint : Option String) (crashes : Bool)
    (script : List Reaction := [])
  /-- Lets go of what a handle stands for. -/
  | drop (handle : String)
  /-- Writes a value to an input of a part. -/
  | set (handle pin : String) (value : Value)
  /-- Reads an input of a part. -/
  | input (handle pin : String)
  /-- Reads an output of a part. -/
  | output (handle pin : String)
  /-- Reads all outputs of a part. -/
  | outputs (handle : String)
  /-- Steps a part. -/
  | recompute (handle : String)
  /-- Writes to a pin of a part, whatever it is for. -/
  | poke (handle pin : String) (value : Value)
  /-- Writes to a pin that has a handle. -/
  | pokePin (handle : String) (value : Value)
  /-- Shows a pin that has a handle. -/
  | peek (handle : String)
  /-- Shows a part. -/
  | look (handle : String)
  /-- Writes out a part and its reporter, or a reporter. -/
  | dump (handle : String) (indented : Bool)
  /-- Gives a part a view. -/
  | attach (handle view : String)
  /-- Registers a listener or reporter with a reporter. -/
  | add (handle listener : String)
  /-- Takes back one registration. -/
  | remove (handle listener : String)
  /-- Has a reporter send a message, or word that the trouble is over. -/
  | notify (handle : String) (message : Option String)
  /-- Tells a reporter of an event from elsewhere. -/
  | occur (handle source : String) (message : Option String)
  /-- Counts the live registrations of a reporter. -/
  | count (handle : String)
  /-- Has a view complain. -/
  | raise (view : String) (message : Option String)

/-- What there is to see of a part. -/
structure PartSummary where
  id : Ident
  name : String
  gate : String
  hasDisplay : Bool
  phase : Phase
  inputs : List Pin
  outputs : List Pin
  internals : List Pin
  /-- The cells of a circuit: the chip's name, and the names of its pins on both sides. -/
  cells : List (String × List String × List String)
  listeners : Nat

/-- What a command is answered. -/
inductive Reply where
  | done
  | ident (id : Ident)
  | word (w : Word)
  | words (ws : List Word)
  | text (s : String)
  | texts (ss : List String)
  | count (n : Nat)
  | reached (b : Bool)
  | part (p : PartSummary)
  | assembled (parts : List Assembled)
  | fault (f : Fault)
  | crash
  | noHandle

/-- The reply to something that failed. -/
def Reply.ofFailure : Failure → Reply
  | .fault f => .fault f
  | .crash => .crash

namespace Bench

/-- What there is to see of a part. -/
def summary (b : Bench) (p : Part) : PartSummary where
  id := p.id
  name := p.name
  gate := p.gate.name
  hasDisplay := p.hasDisplay
  phase := p.phase
  inputs := p.gate.inputs.filterMap b.board.pin?
  outputs := p.gate.outputs.filterMap b.board.pin?
  internals := p.gate.internals.filterMap b.board.pin?
  cells := p.gate.cells.map fun c =>
    (c.chip.name, c.inputs.map b.board.nameOf, c.outputs.map b.board.nameOf)
  listeners := b.network.liveCount p.reporter

/-! ## Commands that make things -/

/-- Puts a gate to use under a handle. -/
def install (b : Bench) (handle : String) (gate : Gate) (display : Bool) : Reply × Bench :=
  let (index, part, b) := b.addPart gate display
  (.ident part.id, b.bind handle (.part index part.reporter))

/-- A part of a chip, on new pins. -/
def makePart (b : Bench) (handle chip : String) (display : Bool) : Reply × Bench :=
  match b.newGate chip with
  | .ok (gate, b) => b.install handle gate display
  | .error f => (.fault f, b)

/-- A part of a circuit. -/
def makeCircuit (b : Bench) (handle : String) (plan : Plan) (display : Bool) : Reply × Bench :=
  match plan.build b.catalog b.board with
  | .ok (board, circuit) =>
    ({ b with board := board }.note plan.notice).install handle (.circuit circuit) display
  | .error f => (.fault f, b)

/-- A pin that belongs to no part. -/
def makePin (b : Bench) (handle : String) (signal : Signal) : Reply × Bench :=
  match Pin.ofSignal signal with
  | .ok pin => (.done, { b with board := b.board.place pin }.bind handle (.pin b.board.size))
  | .error f => (.fault f, b)

/-- A part of a chip, on pins that have handles. The handles are looked up before the chip is. -/
def makeWired (b : Bench) (handle chip : String) (inputs outputs : List String)
    (display : Bool) : Reply × Bench :=
  match inputs.mapM b.pinId?, outputs.mapM b.pinId? with
  | some inputs, some outputs =>
    match b.catalog.create chip >>= fun chip => Cell.wire b.board chip inputs outputs with
    | .ok cell => b.install handle (.cell cell) display
    | .error f => (.fault f, b)
  | _, _ => (.noHandle, b)

/-- Binds the parts of a setup to the handle followed by their number. -/
def bindAll (b : Bench) (handle : String) (parts : List Assembled) : Bench :=
  parts.zipIdx.foldl
    (fun b (it, k) => b.bind (handle ++ toString k) (.part it.index it.part.reporter)) b

/-- The parts of a setup document. -/
def makeSetup (b : Bench) (handle text : String) : Reply × Bench :=
  match Setup.ofText text with
  | .error f => (.fault f, b)
  | .ok setup =>
    match b.assemble setup with
    | (.ok parts, b) => (.assembled parts, b.bindAll handle parts)
    | (.error f, b) => (.fault f, b)

/-- A reporter that belongs to no part. -/
def makeReporter (b : Bench) (handle name : String) : Reply × Bench :=
  let id := b.nextId
  let (r, b) := b.addReporter name
  (.ident id, b.bind handle (.reporter r))

/-- A listener. -/
def makeListener (b : Bench) (handle : String) (crashes : Bool) (script : List Response) :
    Reply × Bench :=
  let (l, b) := b.addListener { handle, script, crashes }
  (.done, b.bind handle (.listener l))

/-- A view. -/
def makeView (b : Bench) (handle : String) (deaf : Bool) (complaint : Option String)
    (crashes : Bool) (script : List Reaction) : Reply × Bench :=
  let (v, b) := b.addView { handle, deaf, script, habit := { complaint, crashes } }
  (.done, b.bind handle (.view v))

/-! ## Commands on things that are there -/

/-- Does something with the part that a handle stands for. -/
def onPart (b : Bench) (handle : String) (f : Nat → Part → Reply × Bench) : Reply × Bench :=
  match b.part? handle with
  | some (i, part) => f i part
  | none => (.noHandle, b)

/-- Does something with the reporter that a handle stands for. -/
def onReporter (b : Bench) (handle : String) (f : ReporterId → Reply × Bench) : Reply × Bench :=
  match b.network.reporter? handle with
  | some r => f r
  | none => (.noHandle, b)

/-- Lets go of what a handle stands for. -/
def dropHandle (b : Bench) (handle : String) : Reply × Bench :=
  match b.network.object? handle with
  | some _ => (.done, b.release handle)
  | none => (.noHandle, b)

/-- Writes to a pin and shows it. -/
def pokeAt (b : Bench) (p : PinId) (v : Value) : Reply × Bench :=
  let b := b.writePin p v
  (.text ((b.board.pin? p).elim "" Pin.text), b)

/-- Writes to the first pin of that name: an input if there is one, else an output, else a net
inside. -/
def pokePart (b : Bench) (part : Part) (pin : String) (v : Value) : Reply × Bench :=
  match b.board.find? (part.gate.inputs ++ part.gate.outputs ++ part.gate.internals) pin with
  | some p => b.pokeAt p v
  | none => (.noHandle, b)

/-- The dumps of the part or reporter that a handle stands for. -/
def dumps (b : Bench) (handle : String) : List Dump :=
  ((b.part? handle).map fun it => it.2.dump).toList ++
    ((b.network.reporter? handle).bind b.network.dump).toList

/-- Gives a part a view. -/
def attachView (b : Bench) (handle view : String) : Reply × Bench :=
  match b.view? view with
  | none => (.noHandle, b)
  | some (v, _) => b.onPart handle fun i part => (.done, b.attach i part v)

/-- Changes the registrations of a reporter and counts them. -/
def onRegistration (b : Bench) (handle listener : String)
    (f : Network → ReporterId → Target → Network) : Reply × Bench :=
  match b.network.target? listener with
  | none => (.noHandle, b)
  | some t => b.onReporter handle fun r =>
    let b := b.withNetwork (f · r t)
    (.count (b.network.liveCount r), b)

/-- Tells a reporter of an event. The event gets its identity first, whether or not the handle
stands for a reporter. -/
def occur (b : Bench) (handle source : String) (message : Option String) : Reply × Bench :=
  let (id, b) := b.takeId
  b.onReporter handle fun r => (.done, b.withNetwork (·.pass r ⟨id, source, message⟩))

/-- The reply to a command, and the bench after it, with the trace going on from before. -/
def perform (b : Bench) : Command → Reply × Bench
  | .part handle chip display => b.makePart handle chip display
  | .circuit handle plan display => b.makeCircuit handle plan display
  | .pin handle signal => b.makePin handle signal
  | .wire handle chip inputs outputs display => b.makeWired handle chip inputs outputs display
  | .setup handle text => b.makeSetup handle text
  | .reporter handle name => b.makeReporter handle name
  | .listener handle crashes script => b.makeListener handle crashes script
  | .view handle deaf complaint crashes script => b.makeView handle deaf complaint crashes script
  | .drop handle => b.dropHandle handle
  | .set handle pin value => b.onPart handle fun _ part =>
    match b.setInput part pin value with
    | (.ok (), b) => (.done, b)
    | (.error f, b) => (.fault f, b)
  | .input handle pin => b.onPart handle fun _ part =>
    match b.readPin part part.gate.inputs pin with
    | .ok w => (.word w, b)
    | .error f => (.fault f, b)
  | .output handle pin => b.onPart handle fun _ part =>
    match b.readPin part part.gate.outputs pin with
    | .ok w => (.word w, b)
    | .error f => (.fault f, b)
  | .outputs handle => b.onPart handle fun _ part =>
    (.words (b.board.readAll part.gate.outputs), b)
  | .recompute handle => b.onPart handle fun i part =>
    match b.recompute i part with
    | (.ok (), b) => (.words (b.board.readAll part.gate.outputs), b)
    | (.error e, b) => (.ofFailure e, b)
  | .poke handle pin value => b.onPart handle fun _ part => b.pokePart part pin value
  | .pokePin handle value =>
    match b.pinId? handle with
    | some p => b.pokeAt p value
    | none => (.noHandle, b)
  | .peek handle =>
    match (b.pinId? handle).bind b.board.pin? with
    | some pin => (.text pin.text, b)
    | none => (.noHandle, b)
  | .look handle => b.onPart handle fun _ part => (.part (b.summary part), b)
  | .dump handle indented =>
    match b.dumps handle with
    | [] => (.noHandle, b)
    | ds => (.texts (ds.map fun d => if indented then d.indented else d.inlined), b)
  | .attach handle view => b.attachView handle view
  | .add handle listener => b.onRegistration handle listener Network.register
  | .remove handle listener => b.onRegistration handle listener Network.unregister
  | .notify handle message => b.onReporter handle fun r =>
    (.done, b.withNetwork (·.announce r message))
  | .occur handle source message => b.occur handle source message
  | .count handle => b.onReporter handle fun r => (.count (b.network.liveCount r), b)
  | .raise view message =>
    match b.view? view with
    | some (_, view) =>
      let (reached, b) := b.raise view message
      (.reached reached, b)
    | none => (.noHandle, b)

/-- Runs one command, with a trace of its own. -/
def run (b : Bench) (c : Command) : Reply × Bench :=
  (b.withNetwork fun n => { n with trace := #[] }).perform c

end Bench

end Breadboard
