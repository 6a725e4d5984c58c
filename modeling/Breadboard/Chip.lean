import Breadboard.Pin

/-!
# Breadboard — chips

A `Chip` declares the signals on its two sides and computes output words from input words. The
words it computes are staged in `Slots`, one slot for each output, and nothing reaches a pin
before the chip is done. A slot starts out unset, and a chip may end with slots still unset: that
is for the caller to notice (`Slots.firstUnset`).

A chip addresses inputs and slots by position. A position that does not exist is a defect of the
chip and ends in a `crash`.
-/

namespace Breadboard

/-- Where the words of one evaluation are staged; `none` is a slot that was never set. -/
abbrev Slots (n : Nat) := Vector (Option Word) n

namespace Slots

variable {n : Nat}

/-- All slots unset. -/
def blank (n : Nat) : Slots n := Vector.replicate n none

/-- Sets slot `k`; there has to be one. -/
def put (s : Slots n) (k : Nat) (w : Word) : Except Failure (Slots n) :=
  if h : k < n then .ok (s.set k (some w) h) else .error .crash

/-- The word in slot `k`, if there is a slot `k` and it has been set. -/
def word? (s : Slots n) (k : Nat) : Option Word := s[k]?.join

/-- The lowest slot that was never set. -/
def firstUnset (s : Slots n) : Option Nat :=
  s.toList.findIdx? Option.isNone

/-- The words that have been set, in the order of the slots. -/
def words (s : Slots n) : List Word :=
  s.toList.filterMap id

end Slots

/-- A kind of gate: what it is called, what it is connected by, what it computes. -/
structure Chip where
  name : String
  inputs : List Signal
  outputs : List Signal
  /-- Computes from the input words, in the order of `inputs`, and stages the results. -/
  evaluate : {n : Nat} → List Word → Slots n → Except Failure (Slots n)

/-- The `k`-th input word of an evaluation; there has to be one. -/
def inputWord (ws : List Word) (k : Nat) : Except Failure Word :=
  match ws[k]? with
  | some w => .ok w
  | none => .error .crash

end Breadboard
