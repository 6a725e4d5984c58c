import Breadboard.Pin

/-!
# Breadboard — the board

All pins live on one `Board` and are named by number, so two gates share a net by holding the
same number. Pins are only ever added; a number given out by `Board.place` stays good.

Reading and writing are total: a number that was never given out reads as zero and takes no
write. No gate holds such a number.
-/

namespace Breadboard

/-- The number of a pin on the board. -/
abbrev PinId := Nat

/-- All pins there are, by number. -/
structure Board where
  pins : Array Pin
deriving DecidableEq

namespace Board

/-- A board without pins. -/
def empty : Board := ⟨#[]⟩

/-- How many pins there are; also the number of the next one. -/
def size (b : Board) : Nat := b.pins.size

/-- The pin of that number. -/
def pin? (b : Board) (p : PinId) : Option Pin := b.pins[p]?

/-- The word that a pin holds. -/
def read (b : Board) (p : PinId) : Word :=
  (b.pin? p).elim 0 Pin.value

/-- The name of a pin. -/
def nameOf (b : Board) (p : PinId) : String :=
  (b.pin? p).elim "" fun it => it.name

/-- The width of a pin. -/
def widthOf (b : Board) (p : PinId) : Width :=
  (b.pin? p).elim 0 fun it => it.width

/-- Writes a value to one pin. -/
def write (b : Board) (p : PinId) (v : Value) : Board :=
  ⟨b.pins.modify p (·.write v)⟩

/-- The words that some pins hold, in the order asked. -/
def readAll (b : Board) (ps : List PinId) : List Word :=
  ps.map b.read

/-- Writes words to pins one after the other, so the last word for a pin is the one it keeps. -/
def writeAll (b : Board) (ws : List (PinId × Word)) : Board :=
  ws.foldl (fun b (p, w) => b.write p w.toInt32) b

/-- Adds a pin. -/
def place (b : Board) (p : Pin) : Board :=
  ⟨b.pins.push p⟩

/-- Adds a new pin for every signal, in order; the first signal of an invalid width is refused.
The pins get the numbers from `b.size` on. -/
def placeAll (b : Board) : List Signal → Except Fault Board
  | [] => .ok b
  | s :: ss => do (b.place (← Pin.ofSignal s)).placeAll ss

/-- The first of some pins that has the given name. -/
def find? (b : Board) (ps : List PinId) (name : String) : Option PinId :=
  ps.find? fun p => b.nameOf p == name

end Board

end Breadboard
