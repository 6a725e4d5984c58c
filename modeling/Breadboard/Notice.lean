import Breadboard.Event
import Breadboard.Fault

/-!
# Breadboard — notices

What the bench says about its own work, for people who watch it. A `Notice` is a fact, not a
text: its level, the component it comes from, its wording and its details are functions of it. A
notice never influences what happens next.
-/

namespace Breadboard

/-- How much a notice matters, the weightiest first. -/
inductive Level where
  | warn
  | info
  | debug
  | trace
  /-- For the record only: nobody who watches asks for this much. -/
  | record
deriving DecidableEq

/-- The rank of a level, zero for the weightiest. -/
def Level.rank : Level → Nat
  | .warn => 0
  | .info => 1
  | .debug => 2
  | .trace => 3
  | .record => 4

/-- The word for a level. -/
def Level.text : Level → String
  | .warn => "WARN"
  | .info => "INFO"
  | .debug => "DEBUG"
  | .trace => "TRACE"
  | .record => "RECORD"

/-- Which component a notice comes from. -/
inductive Component where
  | cell
  | circuit
  | part
  | reporter
  | setup
deriving DecidableEq

/-- The value of a detail of a notice. -/
inductive Detail where
  | number (n : Nat)
  | flag (b : Bool)
  | text (s : String)
deriving DecidableEq

/-- What was noticed. -/
inductive Notice where
  /-- A cell computed and wrote its outputs. -/
  | cellStepped (chip : String) (inputs : List Word)
  /-- A circuit was built from its plan. -/
  | circuitBuilt (circuit : String) (cells : Nat)
  /-- A cell of a circuit faulted, which ends the circuit's step. -/
  | cellFaulted (circuit cell : String) (fault : Fault)
  /-- A value was written to a pin that cannot hold it. -/
  | lossyWrite (part message : String)
  /-- A value was written to a pin of that number by someone other than a gate. -/
  | pinWritten (pin : Nat) (value : Value)
  /-- The gate of a part faulted. -/
  | partFaulted (part : String) (fault : Fault)
  /-- The gate of a part was stepped and shown. -/
  | partStepped (part : String) (id : Ident)
  /-- A reporter starts to send an event to so many registrations. -/
  | delivering (reporter : String) (registrations : Nat) (clear : Bool)
  /-- A listener broke down while it heard an event. -/
  | listenerCrashed (reporter : String)
  /-- An event came back to a reporter that was still sending it on. -/
  | loopedBack (reporter source : String)
  /-- All parts of a setup were built. -/
  | setupBuilt (setup : String) (parts : Nat)
deriving DecidableEq

/-- Words in brackets, the way a notice lists them. -/
def wordList (ws : List Word) : String :=
  "[" ++ String.intercalate ", " (ws.map toString) ++ "]"

namespace Notice

/-- How much a notice matters. -/
def level : Notice → Level
  | cellStepped .. => .trace
  | circuitBuilt .. | partStepped .. | delivering .. => .debug
  | setupBuilt .. => .info
  | pinWritten .. => .record
  | cellFaulted .. | lossyWrite .. | partFaulted .. | listenerCrashed .. | loopedBack .. => .warn

/-- Where a notice comes from. -/
def component : Notice → Component
  | cellStepped .. => .cell
  | circuitBuilt .. | cellFaulted .. => .circuit
  | lossyWrite .. | pinWritten .. | partFaulted .. | partStepped .. => .part
  | delivering .. | listenerCrashed .. | loopedBack .. => .reporter
  | setupBuilt .. => .setup

/-- The wording of a notice. -/
def message : Notice → String
  | cellStepped .. => "recomputed built-in gate"
  | circuitBuilt .. => "built composite chip"
  | cellFaulted .. => "sub-gate fault"
  | lossyWrite _ message => message
  | pinWritten .. => "wrote pin"
  | partFaulted .. => "evaluation fault"
  | partStepped .. => "recomputed"
  | delivering .. => "delivering error event"
  | listenerCrashed .. => "error listener panicked; continuing"
  | loopedBack .. => "error event looped back to its reporter; dropping"
  | setupBuilt .. => "built parts from config"

/-- What a notice is about, beside its wording. -/
def details : Notice → List (String × Detail)
  | cellStepped chip inputs => [("gate", .text chip), ("inputs", .text (wordList inputs))]
  | circuitBuilt circuit cells => [("chip", .text circuit), ("parts", .number cells)]
  | cellFaulted circuit cell fault =>
    [("chip", .text circuit), ("part", .text cell), ("error", .text fault.message)]
  | lossyWrite part _ => [("part", .text part)]
  | pinWritten pin value => [("pin", .number pin), ("value", .text (toString value))]
  | partFaulted part fault => [("part", .text part), ("error", .text fault.message)]
  | partStepped part id => [("part", .text part), ("id", .text id.text)]
  | delivering reporter registrations clear =>
    [("part", .text reporter), ("listeners", .number registrations), ("clear", .flag clear)]
  | listenerCrashed reporter => [("part", .text reporter)]
  | loopedBack reporter source => [("part", .text reporter), ("from", .text source)]
  | setupBuilt setup parts => [("config", .text setup), ("parts", .number parts)]

/-- Whether someone who watches from `level` up sees the notice. -/
def shownAt (n : Notice) (level : Level) : Bool :=
  n.level.rank ≤ level.rank

end Notice

end Breadboard
