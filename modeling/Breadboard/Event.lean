/-!
# Breadboard — events

An `Event` tells that something went wrong at its source, or that the trouble there is over. The
source is named twice: by an identity that no other source has, and by a name for people.
-/

namespace Breadboard

/-- The identity of a source of events. Identities are handed out in ascending order. -/
abbrev Ident := Nat

/-- The way an identity is written. -/
def Ident.text (id : Ident) : String := s!"#{id}"

/-- A report of trouble; without a message, the report that it is over. -/
structure Event where
  source : Ident
  sourceName : String
  message : Option String
deriving DecidableEq

namespace Event

/-- Whether the event says that the trouble is over. -/
def isClear (e : Event) : Bool := e.message.isNone

/-- An event in one line. -/
def text (e : Event) : String :=
  s!"{e.sourceName} {e.source.text}: " ++ e.message.getD "cleared"

end Event

end Breadboard
