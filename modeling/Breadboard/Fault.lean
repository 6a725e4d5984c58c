import Breadboard.Word

/-!
# Breadboard — faults

A `Fault` says why a request was refused or an evaluation went wrong; its wording is in one
place, `Fault.message`. A `Failure` is wider: besides a fault, which is reported, it covers the
case that the code of a chip or a view broke down (`crash`), about which nothing can be said.
-/

namespace Breadboard

/-- The two sides of a chip. -/
inductive Side where
  | input
  | output
deriving DecidableEq

/-- The word for a side. -/
def Side.text : Side → String
  | .input => "input"
  | .output => "output"

/-- Why something was refused. -/
inductive Fault where
  /-- A pin was declared with a width outside `1` to `16`. -/
  | invalidWidth (pin : String) (width : Width)
  /-- A part has no pin (or a circuit no net) of that name. -/
  | unknownPin (part pin : String)
  /-- The same pin was named twice. -/
  | duplicatePin (part pin : String)
  /-- The catalog has no chip of that name. -/
  | unknownChip (name : String)
  /-- A chip was given too many or too few pins on one side. -/
  | pinCount (chip : String) (side : Side) (expected actual : Nat)
  /-- A chip's signal was put on a pin of another width. -/
  | widthMismatch (pin : String) (expected actual : Width)
  /-- A chip refused its input words. -/
  | evaluation (gate message : String)
  /-- A chip ended without giving a word for one of its outputs. -/
  | unassignedOutput (gate pin : String)
  /-- A setup cannot be had, in the words of whoever says so: of the reader of files, or of a chip. -/
  | unreadableSetup (reason : String)
  /-- The text of a setup is not a setup document. -/
  | malformedSetup
deriving DecidableEq

/-- The wording of a fault. -/
def Fault.message : Fault → String
  | invalidWidth pin width => s!"Invalid pin width {width} for '{pin}' (expected 1..=16)"
  | unknownPin part pin => s!"Unknown pin '{pin}' on '{part}'"
  | duplicatePin part pin => s!"Duplicate pin '{pin}' on '{part}'"
  | unknownChip name => s!"Unknown chip type: {name}"
  | pinCount chip side expected actual =>
    s!"Chip '{chip}' expects {expected} {side.text} pins, got {actual}"
  | widthMismatch pin expected actual =>
    s!"Width mismatch on '{pin}': expected {expected}, got {actual}"
  | evaluation gate message => s!"Evaluation fault in '{gate}': {message}"
  | unassignedOutput gate pin => s!"Chip '{gate}' left output '{pin}' unassigned"
  | unreadableSetup reason => s!"Configuration error: {reason}"
  | malformedSetup => "Configuration error: Failed to parse JSON config:"

/-- How a computation can end without a result. -/
inductive Failure where
  /-- A fault that is reported to whoever asked. -/
  | fault (f : Fault)
  /-- The code itself broke down, for instance at a position that does not exist. -/
  | crash
deriving DecidableEq

end Breadboard
