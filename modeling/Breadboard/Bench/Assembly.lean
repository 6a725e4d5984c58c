import Breadboard.Bench
import Breadboard.Setup

/-!
# Breadboard — putting a setup on the bench

`Bench.assemble` builds the parts of a setup in order. It stops at the first one that cannot be
built; the identities that the parts before it took are gone then.
-/

namespace Breadboard

/-- A part built from a setup: what it is called there, its number, and the part. -/
structure Assembled where
  name : String
  index : Nat
  part : Part

namespace Bench

/-- Builds parts in order, up to the first that cannot be built. -/
def assembleParts (b : Bench) : List PartSetup → Except Fault (List Assembled) × Bench
  | [] => (.ok [], b)
  | it :: rest =>
    match b.newGate it.chip with
    | .error f => (.error f, b)
    | .ok (gate, b) =>
      let (index, part, b) := b.addPart gate it.hasDisplay
      let (built, b) := b.assembleParts rest
      (built.map ({ name := it.name.getD it.chip, index, part } :: ·), b)

/-- Builds the parts of a setup. -/
def assemble (b : Bench) (s : Setup) : Except Fault (List Assembled) × Bench :=
  match b.assembleParts s.parts with
  | (.ok built, b) => (.ok built, b.note (.setupBuilt s.name built.length))
  | failed => failed

end Bench

end Breadboard
