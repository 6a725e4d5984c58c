import Breadboard.Circuit
import Breadboard.Network

/-!
# Breadboard — parts and views

A `Part` is a gate put to use: it has an identity, a reporter for what goes wrong, and possibly a
view that is shown its pins after each successful step. A `View` follows a script, as a listener does,
and may itself report trouble, to the reporter that it was given when it was attached.

A part does not keep its view alive, nor a view the reporter that it was given.
-/

namespace Breadboard

/-- Whether a part has been stepped yet. -/
inductive Phase where
  | constructed
  | running
deriving DecidableEq

/-- A gate with an identity and a reporter. -/
structure Part where
  id : Ident
  gate : Gate
  hasDisplay : Bool
  reporter : ReporterId
  phase : Phase := .constructed
  /-- The view attached last, by its number on the bench. -/
  view : Option Nat := none

/-- A part has the name of its gate. -/
def Part.name (p : Part) : String := p.gate.name

/-- Something that is shown the pins of a part. -/
structure View where
  handle : String
  /-- A deaf view forgets at once which reporter it is given. -/
  deaf : Bool := false
  /-- What to do each of the next times that it is shown something. -/
  script : List Reaction := []
  /-- What to do every time after that. -/
  habit : Reaction := {}
  /-- The reporter that it was given last. -/
  reporter : Option ReporterId := none
  /-- Whether its handle is still bound. -/
  owned : Bool := true
deriving DecidableEq

/-- What a view does the next time that it is shown something. -/
def View.next (v : View) : Reaction :=
  v.script.headD v.habit

/-- Names and words of some pins, the way a view is shown them. -/
def Board.readings (b : Board) (ps : List PinId) : List (String × Word) :=
  ps.map fun p => (b.nameOf p, b.read p)

end Breadboard
