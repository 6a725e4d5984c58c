import Breadboard.Chip.Standard
import Std.Data.TreeMap

/-!
# Breadboard — catalogs of chips

A `Catalog` says which chip a name stands for. It is a finite map: the chip registered last under
a name is the one created by it, and the names are listed in ascending order of their code
points, whatever order they were registered in. A chip's own name plays no part in this; it may
be registered under any other.
-/

namespace Breadboard

/-- Which chip a name stands for. -/
structure Catalog where
  chips : Std.TreeMap String Chip

namespace Catalog

/-- A catalog without chips. -/
def empty : Catalog := ⟨∅⟩

/-- Makes `name` stand for `chip`, and for no other. -/
def register (c : Catalog) (name : String) (chip : Chip) : Catalog :=
  ⟨c.chips.insert name chip⟩

/-- The catalog of the standard chips, each under its own name. -/
def standard : Catalog :=
  Chip.standard.foldl (fun c chip => c.register chip.name chip) empty

/-- Whether `name` stands for a chip. -/
def contains (c : Catalog) (name : String) : Bool :=
  c.chips.contains name

/-- The chip that `name` stands for. -/
def create (c : Catalog) (name : String) : Except Fault Chip :=
  match c.chips[name]? with
  | some chip => .ok chip
  | none => .error (.unknownChip name)

/-- All names, in ascending order. -/
def names (c : Catalog) : List String :=
  c.chips.keys

end Catalog

end Breadboard
