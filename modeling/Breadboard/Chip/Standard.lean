import Breadboard.Chip

/-!
# Breadboard — the standard chips

The chips that every full catalog starts with:

* **bit logic** (`nand`, `and`, `or`, `xor`, `not`): one-bit inputs of which only the lowest bit
  counts, one-bit output;
* **word logic** (`not16`);
* **selection** (`mux`, `mux16`): the first data input if the selector is zero, else the second;
* **routing** (`dmux`, `dmux4Way`, `dmux8Way`): the data input goes to the slot that the selector
  numbers and zero to all others.
-/

namespace Breadboard.Chip

/-! ## Bit and word logic -/

/-- A chip that joins the lowest bits of two inputs. -/
def joining (name : String) (op : Word → Word → Word) : Chip where
  name := name
  inputs := [.bit "a", .bit "b"]
  outputs := [.bit "out"]
  evaluate ws slots := do
    let a ← inputWord ws 0
    let b ← inputWord ws 1
    slots.put 0 (op (a &&& 1) (b &&& 1))

/-- The chip that every other one can be built from. -/
def nand : Chip := joining "Nand" fun a b => ~~~(a &&& b) &&& 1

/-- Set if both inputs are. -/
def and : Chip := joining "And" fun a b => a &&& b

/-- Set if one of the inputs is. -/
def or : Chip := joining "Or" fun a b => a ||| b

/-- Set if the inputs differ. -/
def xor : Chip := joining "Xor" fun a b => a ^^^ b

/-- Set if the input is not. -/
def not : Chip where
  name := "Not"
  inputs := [.bit "in"]
  outputs := [.bit "out"]
  evaluate ws slots := do
    slots.put 0 (~~~(← inputWord ws 0) &&& 1)

/-- Inverts all sixteen bits. -/
def not16 : Chip where
  name := "Not16"
  inputs := [⟨"in", 16⟩]
  outputs := [⟨"out", 16⟩]
  evaluate ws slots := do
    slots.put 0 (~~~(← inputWord ws 0))

/-! ## Selection -/

/-- A chip that passes on one of two inputs of the given width. -/
def selecting (name : String) (width : Width) : Chip where
  name := name
  inputs := [⟨"a", width⟩, ⟨"b", width⟩, .bit "sel"]
  outputs := [⟨"out", width⟩]
  evaluate ws slots := do
    let sel ← inputWord ws 2
    -- only the input that is passed on is looked at
    slots.put 0 (← inputWord ws (if sel = 0 then 0 else 1))

/-- Passes on one of two bits. -/
def mux : Chip := selecting "Mux" 1

/-- Passes on one of two words. -/
def mux16 : Chip := selecting "Mux16" 16

/-! ## Routing -/

/-- Sets every slot: the one whose number, cut to a word, is `sel` gets `w`, all others zero. -/
def route {n : Nat} (w sel : Word) (slots : Slots n) : Slots n :=
  slots.mapIdx fun k _ => some (if Int16.ofNat k = sel then w else 0)

/-- A chip that routes one bit to one of the named outputs. -/
def routing (name : String) (selector : Width) (ways : List String) : Chip where
  name := name
  inputs := [.bit "in", ⟨"sel", selector⟩]
  outputs := ways.map .bit
  evaluate ws slots := do
    let w ← inputWord ws 0
    let sel ← inputWord ws 1
    return route w sel slots

/-- Routes a bit one of two ways. -/
def dmux : Chip := routing "DMux" 1 ["a", "b"]

/-- Routes a bit one of four ways. -/
def dmux4Way : Chip := routing "DMux4Way" 2 ["a", "b", "c", "d"]

/-- Routes a bit one of eight ways. -/
def dmux8Way : Chip := routing "DMux8Way" 3 ["a", "b", "c", "d", "e", "f", "g", "h"]

/-- The standard chips. -/
def standard : List Chip :=
  [nand, not, and, or, xor, not16, mux, mux16, dmux, dmux4Way, dmux8Way]

end Breadboard.Chip
