import Breadboard.Catalog
import Breadboard.Part

/-!
# Breadboard — the bench

A `Bench` is everything that is in use at one time: a catalog, the board, the network of
reporters and listeners, the parts, the views, and the next identity to be handed out. Things are
put on the bench under handles. A handle stands for one thing; binding it anew lets go of the
thing that it stood for before, which is then dead for all who do not hold it by a handle.
-/

namespace Breadboard

/-- Everything in use at one time. -/
structure Bench where
  catalog : Catalog
  board : Board := .empty
  network : Network := {}
  parts : Array Part := #[]
  views : Array View := #[]
  /-- The next identity to be handed out. -/
  nextId : Ident := 1

namespace Bench

/-! ## The network of the bench -/

/-- Changes the network only. -/
def withNetwork (b : Bench) (f : Network → Network) : Bench :=
  { b with network := f b.network }

/-- Adds an entry to the trace. -/
def emit (b : Bench) (e : Entry) : Bench := b.withNetwork (·.emit e)

/-- Adds a notice to the trace. -/
def note (b : Bench) (n : Notice) : Bench := b.withNetwork (·.note n)

/-- Adds notices to the trace, in order. -/
def noteAll (b : Bench) (ns : List Notice) : Bench := ns.foldl note b

/-- The part that a handle stands for, with its number. -/
def part? (b : Bench) (handle : String) : Option (Nat × Part) :=
  match b.network.object? handle with
  | some (.part i _) => b.parts[i]?.map (i, ·)
  | _ => none

/-- The pin that a handle stands for. -/
def pinId? (b : Bench) (handle : String) : Option PinId :=
  match b.network.object? handle with
  | some (.pin p) => some p
  | _ => none

/-- The view that a handle stands for, with its number. -/
def view? (b : Bench) (handle : String) : Option (Nat × View) :=
  match b.network.object? handle with
  | some (.view i) => b.views[i]?.map (i, ·)
  | _ => none

/-! ## Handles -/

/-- Nothing holds a thing by a handle any more. -/
def disown (b : Bench) : Object → Bench
  | .part _ r | .reporter r => b.withNetwork (·.disownReporter r)
  | .listener l => b.withNetwork (·.disownListener l)
  | .view i => { b with views := b.views.modify i fun v => { v with owned := false } }
  | .pin _ => b

/-- Lets go of what a handle stands for, if anything. -/
def release (b : Bench) (handle : String) : Bench :=
  match b.network.object? handle with
  | some o => (b.disown o).withNetwork (·.unbind handle)
  | none => b

/-- Makes a handle stand for a thing. -/
def bind (b : Bench) (handle : String) (o : Object) : Bench :=
  (b.release handle).withNetwork fun n => { n with handles := n.handles.insert handle o }

/-! ## New things -/

/-- Hands out an identity. -/
def takeId (b : Bench) : Ident × Bench :=
  (b.nextId, { b with nextId := b.nextId + 1 })

/-- Adds a reporter with an identity of its own. -/
def addReporter (b : Bench) (name : String) : ReporterId × Bench :=
  let (id, b) := b.takeId
  (b.network.reporters.length,
    b.withNetwork fun n => { n with reporters := n.reporters ++ [{ source := id, name := name }] })

/-- Adds a listener. -/
def addListener (b : Bench) (l : Listener) : ListenerId × Bench :=
  (b.network.listeners.length,
    b.withNetwork fun n => { n with listeners := n.listeners ++ [l] })

/-- Adds a view. -/
def addView (b : Bench) (v : View) : Nat × Bench :=
  (b.views.size, { b with views := b.views.push v })

/-- Puts a gate to use: a part with an identity, and a reporter that speaks in its name. -/
def addPart (b : Bench) (gate : Gate) (hasDisplay : Bool) : Nat × Part × Bench :=
  let id := b.nextId
  let (reporter, b) := b.addReporter gate.name
  let part : Part := { id, gate, hasDisplay, reporter }
  (b.parts.size, part, { b with parts := b.parts.push part })

/-- A gate of a chip of the catalog, on new pins. -/
def newGate (b : Bench) (chip : String) : Except Fault (Gate × Bench) := do
  let chip ← b.catalog.create chip
  let (board, cell) ← Cell.fresh b.board chip
  return (.cell cell, { b with board := board })

end Bench

end Breadboard
