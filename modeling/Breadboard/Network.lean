import Breadboard.Board
import Breadboard.Trace
import Std.Data.TreeMap

/-!
# Breadboard — who hears whom

A `Network` holds the reporters and listeners of a bench, what the handles stand for, and the
trace. A **reporter** keeps a list of registrations, oldest first; a registration names a
`Target`, which is a listener or again a reporter.

Registrations do not keep their target alive. A target lives as long as its handle is bound
(`owned`), and besides for as long as someone is calling it: a listener to the end of the events
that it is hearing (`hearing`), a reporter to the end of the walks that it is on (`calls`). A dead
registration stays in the list until the next one is added to it; it is never called and never
counted.
-/

namespace Breadboard

/-- The number of a reporter in its network. -/
abbrev ReporterId := Nat

/-- The number of a listener in its network. -/
abbrev ListenerId := Nat

/-- Who can be registered with a reporter. -/
inductive Target where
  | listener (id : ListenerId)
  | reporter (id : ReporterId)
deriving DecidableEq

/-- A source of events. -/
structure Reporter where
  /-- The identity that its events carry. -/
  source : Ident
  /-- The name that its events carry. -/
  name : String
  /-- Who is to hear them, oldest registration first, dead ones included. -/
  registrations : List Target := []
  /-- Whether it is passing on an event that it heard itself. -/
  reemitting : Bool := false
  /-- Whether its handle is still bound. -/
  owned : Bool := true
  /-- How many walks over its registrations are under way. -/
  calls : Nat := 0
deriving DecidableEq

/-- A reporter lives while it is owned, and to the end of the walks that it is on. -/
def Reporter.alive (r : Reporter) : Bool :=
  r.owned || r.calls != 0

/-- A listener that follows a script. -/
structure Listener where
  handle : String
  /-- What to do at each of the next events. -/
  script : List Response
  /-- Whether it breaks down at the end of every event. -/
  crashes : Bool := false
  /-- Whether its handle is still bound. -/
  owned : Bool := true
  /-- How many events it is hearing right now. -/
  hearing : Nat := 0
deriving DecidableEq

/-- A listener lives while it is owned, and to the end of what it is hearing. -/
def Listener.alive (l : Listener) : Bool :=
  l.owned || l.hearing != 0

/-- Whether the listener breaks down at the end of the next event that it hears. -/
def Listener.breaks (l : Listener) : Bool :=
  l.crashes || l.script.head?.any Response.crashes

/-- What a handle can stand for. -/
inductive Object where
  /-- A part, and the reporter that belongs to it. -/
  | part (index : Nat) (reporter : ReporterId)
  | pin (id : PinId)
  | view (index : Nat)
  | listener (id : ListenerId)
  | reporter (id : ReporterId)
deriving DecidableEq

/-- The reporter that an object is or has. -/
def Object.reporter? : Object → Option ReporterId
  | .part _ r => some r
  | .reporter r => some r
  | _ => none

/-- Whom an object stands for in a registration. -/
def Object.target? : Object → Option Target
  | .listener l => some (.listener l)
  | o => o.reporter?.map .reporter

/-- Reporters, listeners, and what the handles stand for. -/
structure Network where
  handles : Std.TreeMap String Object := ∅
  reporters : List Reporter := []
  listeners : List Listener := []
  trace : Array Entry := #[]

namespace Network

/-! ## Looking things up -/

/-- What a handle stands for. -/
def object? (n : Network) (handle : String) : Option Object :=
  n.handles[handle]?

/-- The reporter that a handle stands for. -/
def reporter? (n : Network) (handle : String) : Option ReporterId :=
  (n.object? handle).bind Object.reporter?

/-- The target that a handle stands for. -/
def target? (n : Network) (handle : String) : Option Target :=
  (n.object? handle).bind Object.target?

/-- Whether a target can hear an event. -/
def alive (n : Network) : Target → Bool
  | .listener l => n.listeners[l]?.any Listener.alive
  | .reporter r => n.reporters[r]?.any Reporter.alive

/-- Whether a target breaks down at the end of the next event that it hears. -/
def crashes (n : Network) : Target → Bool
  | .listener l => n.listeners[l]?.any Listener.breaks
  | .reporter _ => false

/-- The registrations of a reporter, dead ones included. -/
def registrations (n : Network) (r : ReporterId) : List Target :=
  n.reporters[r]?.elim [] Reporter.registrations

/-- How many registrations of a reporter are alive. -/
def liveCount (n : Network) (r : ReporterId) : Nat :=
  (n.registrations r).countP n.alive

/-! ## Small changes -/

/-- Adds an entry to the trace. -/
def emit (n : Network) (e : Entry) : Network :=
  { n with trace := n.trace.push e }

/-- Adds a notice to the trace. -/
def note (n : Network) (it : Notice) : Network :=
  n.emit (.noticed it)

/-- Notes it, after a call by the reporter of that name, if who was called broke down. -/
def contain (n : Network) (reporter : String) (crashed : Bool) : Network :=
  if crashed then n.note (.listenerCrashed reporter) else n

/-- Registers a target, clearing dead registrations away first. -/
def register (n : Network) (r : ReporterId) (t : Target) : Network :=
  { n with reporters := n.reporters.modify r fun it =>
      { it with registrations := it.registrations.filter n.alive ++ [t] } }

/-- Takes back the oldest registration of a target. -/
def unregister (n : Network) (r : ReporterId) (t : Target) : Network :=
  { n with reporters := n.reporters.modify r fun it =>
      { it with registrations := it.registrations.erase t } }

/-- Sets or clears the mark of a reporter that passes on an event. -/
def mark (n : Network) (r : ReporterId) (b : Bool) : Network :=
  { n with reporters := n.reporters.modify r fun it => { it with reemitting := b } }

/-- A reporter sets out on a walk. One that is dead cannot be brought back that way. -/
def beginCall (n : Network) (r : ReporterId) : Network :=
  { n with reporters := n.reporters.modify r fun it =>
      if it.alive then { it with calls := it.calls + 1 } else it }

/-- A reporter is back from a walk. -/
def endCall (n : Network) (r : ReporterId) : Network :=
  { n with reporters := n.reporters.modify r fun it => { it with calls := it.calls - 1 } }

/-- A listener starts to hear an event: it takes the next response off its script. -/
def beginHearing (n : Network) (l : ListenerId) : Network :=
  { n with listeners := n.listeners.modify l fun it =>
      { it with script := it.script.tail, hearing := it.hearing + 1 } }

/-- A listener is done with an event. -/
def endHearing (n : Network) (l : ListenerId) : Network :=
  { n with listeners := n.listeners.modify l fun it => { it with hearing := it.hearing - 1 } }

/-- The handle of the listener no longer holds it. -/
def disownListener (n : Network) (l : ListenerId) : Network :=
  { n with listeners := n.listeners.modify l fun it => { it with owned := false } }

/-- The handle of the reporter no longer holds it. -/
def disownReporter (n : Network) (r : ReporterId) : Network :=
  { n with reporters := n.reporters.modify r fun it => { it with owned := false } }

/-- The handle of a target no longer holds it. -/
def letGo (n : Network) : Target → Network
  | .listener l => n.disownListener l
  | .reporter r => n.disownReporter r

/-- A handle no longer stands for anything. -/
def unbind (n : Network) (handle : String) : Network :=
  { n with handles := n.handles.erase handle }

/-- Lets go of the listener that a handle stands for; anything else is left alone. -/
def dropListener (n : Network) (handle : String) : Network :=
  match n.object? handle with
  | some (.listener l) => (n.unbind handle).disownListener l
  | _ => n

/-- Lets go of the target that a handle stands for; pins and views are left alone. -/
def release (n : Network) (handle : String) : Network :=
  match n.target? handle with
  | some t => (n.unbind handle).letGo t
  | none => n

/-- Performs an edit. One whose handles do not stand for the right things is only recorded. -/
def edit (n : Network) (e : Edit) : Network :=
  match e with
  | .add r l =>
    match n.reporter? r, n.target? l with
    | some r, some t => n.register r t
    | _, _ => n.emit (.failed (.edit e))
  | .remove r l =>
    match n.reporter? r, n.target? l with
    | some r, some t => n.unregister r t
    | _, _ => n.emit (.failed (.edit e))
  | .count r =>
    match n.reporter? r with
    | some id => n.emit (.counted r (n.liveCount id))
    | none => n.emit (.failed (.edit e))
  | .drop l => n.dropListener l

end Network

end Breadboard
