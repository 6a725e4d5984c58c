import Breadboard.Fault

/-!
# Breadboard — pins

A `Signal` is a name with a width, the way a chip or a plan declares it; a `Pin` is a signal that
holds a word. A pin comes into being from a signal of a valid width, holding zero
(`Pin.ofSignal`), and from then on changes only by `Pin.write`, which cuts the value to the pin's
width. So the word in a pin is always one that the width can hold.
-/

namespace Breadboard

/-- A declared name and width. -/
structure Signal where
  name : String
  width : Width
deriving DecidableEq

/-- A signal of one bit. -/
def Signal.bit (name : String) : Signal := ⟨name, 1⟩

/-- A signal and the word that it holds. -/
structure Pin extends Signal where
  value : Word
deriving DecidableEq

namespace Pin

/-- A new pin, holding zero. -/
def ofSignal (s : Signal) : Except Fault Pin :=
  if s.width.isValid then .ok ⟨s, 0⟩ else .error (.invalidWidth s.name s.width)

/-- Stores the low bits of `v`. -/
def write (p : Pin) (v : Value) : Pin :=
  { p with value := fit v p.width }

/-- Whether `p` can store `v` as it is. -/
def fits (p : Pin) (v : Value) : Bool :=
  Breadboard.fits v p.width

/-- A pin in one line: its name, its width and the word it holds. -/
def text (p : Pin) : String :=
  s!"{p.name}[{p.width}]: {p.value}"

end Pin

end Breadboard
