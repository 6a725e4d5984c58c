/-!
# Breadboard — scripts

A listener on the bench follows a **script**: for each event it hears it takes the next response off it and
does what that says, one thing after the other. So does a view, for each time that it is shown something. An
action names things by handle, and a handle is looked up when the action is performed, not before.
-/

namespace Breadboard

/-- A change to, or a look at, who is registered where. -/
inductive Edit where
  /-- Registers a listener or reporter with a reporter. -/
  | add (reporter listener : String)
  /-- Takes back one registration. -/
  | remove (reporter listener : String)
  /-- Counts the live registrations of a reporter. -/
  | count (reporter : String)
  /-- Lets go of a listener. -/
  | drop (listener : String)
deriving DecidableEq

/-- One step of a script. -/
inductive Action where
  | edit (e : Edit)
  /-- Has a reporter send a message, or word that the trouble is over. -/
  | notify (reporter : String) (message : Option String)
deriving DecidableEq

/-- What one who follows a script can do: an action, or to let go of something altogether. -/
inductive Deed where
  | act (a : Action)
  /-- Lets go of the listener, the reporter or the part that a handle stands for. -/
  | release (handle : String)
deriving DecidableEq

/-- What a listener does about one event. -/
structure Response where
  deeds : List Deed
  /-- Whether it breaks down at the end. -/
  crashes : Bool := false
deriving DecidableEq

/-- Actions alone make a response, and one that does not end in a breakdown. -/
instance : Coe (List (List Action)) (List Response) where
  coe script := script.map fun actions => { deeds := actions.map .act }

/-- What a view does about being shown something, in the order of the fields. -/
structure Reaction where
  deeds : List Deed := []
  /-- What it complains about. -/
  complaint : Option String := none
  /-- Whether it breaks down at the end. -/
  crashes : Bool := false
deriving DecidableEq

end Breadboard
