import Breadboard.Notice
import Breadboard.Script

/-!
# Breadboard — the trace

The trace is the record of what happened, in order: notices, the events that listeners heard, what
the actions of their scripts found, and what views were shown. Someone who watches a bench chooses
how weighty a notice has to be to be seen; the other entries are always seen.
-/

namespace Breadboard

/-- One entry of the trace. -/
inductive Entry where
  | noticed (n : Notice)
  /-- A listener heard an event. -/
  | heard (listener : String) (event : Event)
  /-- An action counted registrations. -/
  | counted (reporter : String) (live : Nat)
  /-- An action named a handle that stands for nothing suitable. -/
  | failed (a : Action)
  /-- A view was shown the pins of a part. -/
  | shown (view : String) (inputs outputs : List (String × Word))
deriving DecidableEq

/-- Whether an entry is seen by someone who watches notices from `level` up. -/
def Entry.shownAt (level : Option Level) : Entry → Bool
  | .noticed n => level.any n.shownAt
  | _ => true

end Breadboard
