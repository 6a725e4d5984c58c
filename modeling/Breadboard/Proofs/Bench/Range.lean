import Breadboard.Proofs.Bench.Commands
import Breadboard.Proofs.Circuit.Range
import Breadboard.Proofs.Circuit.Rollback

/-!
# Breadboard — no pin ever leaves its range

Whatever is done on a bench and to its board (`Bench.Happening`: any command, and past the commands any pin
that is made, any value that is written to any pin, any gate that is stepped), all it does to the board is
to change it (`reaches_happenAll`). So no pin ever has another name or width than it was made with, and none
ever holds a word that its width cannot hold, also when a step ended half-way in a chip or in a view that
broke down (`pins_stay_in_range`).
-/

namespace Breadboard.Bench

/-- Something that can happen on a bench: a command, or a change of the board that no command makes. -/
inductive Happening where
  | command (c : Command)
  | change (x : Board.Change)

/-- The bench after something has happened. -/
def happen (b : Bench) : Happening → Bench
  | .command c => (b.run c).2
  | .change x => { b with board := b.board.change x }

/-- The bench after some things have happened, one after the other. -/
def happenAll (b : Bench) (hs : List Happening) : Bench := hs.foldl happen b

/-- The board of a bench that was empty, after some things have happened. -/
def boardAfter (catalog : Catalog) (hs : List Happening) : Board := (happenAll { catalog } hs).board

/-- Whatever happens leads the board ahead. -/
theorem reaches_happen (b : Bench) (h : Happening) : b.board.Reaches (b.happen h).board := by
  cases h with
  | command c => exact reaches_run b c
  | change x => exact (Board.Reaches.refl _).change x

theorem reaches_happenAll (b : Bench) (hs : List Happening) :
    b.board.Reaches (b.happenAll hs).board := by
  induction hs generalizing b with
  | nil => exact .refl _
  | cons h hs ih => exact (reaches_happen b h).trans (ih (b.happen h))

theorem happenAll_append (b : Bench) (hs hs' : List Happening) :
    b.happenAll (hs ++ hs') = (b.happenAll hs).happenAll hs' :=
  List.foldl_append

/-- A pin that is asked for with a valid width is made as it is asked for. -/
theorem signal?_place (b : Board) {s : Signal} (hs : s.width.isValid = true) :
    (b.change (.place s)).signal? b.size = some s := by
  have hPin : Pin.ofSignal s = .ok ⟨s, 0⟩ := if_pos hs
  simp only [Board.change, hPin, Board.signal?, Board.pin?_place, if_true, Option.map_some]

/--
**Pins stay in range.** Start with an empty bench and let anything happen, in any order: commands, new pins,
values written to pins, gates stepped, whether a step goes through, faults or breaks down.

* Every pin is proper: its width is from 1 to 16, and its word fits the width and is not changed by
  cutting it to the width.
* What comes later leaves every pin its name and its width, which are those that it was asked for with.
* A pin that is given its own word stays as it is, and so does the board when a circuit writes back the
  words that it has saved. Whatever words have been written in between, the pins that the circuit saves
  hold their words again.
-/
theorem pins_stay_in_range (catalog : Catalog) (hs : List Happening) :
    (∀ p pin, (boardAfter catalog hs).pin? p = some pin → pin.Proper) ∧
    (∀ later : List Happening, ∀ p < (boardAfter catalog hs).size,
      (boardAfter catalog (hs ++ later)).signal? p = (boardAfter catalog hs).signal? p) ∧
    (∀ (s : Signal) (later : List Happening), s.width.isValid = true →
      (boardAfter catalog (hs ++ .change (.place s) :: later)).signal? (boardAfter catalog hs).size =
        some s) ∧
    (∀ p, (boardAfter catalog hs).write p ((boardAfter catalog hs).read p).toInt32 =
      boardAfter catalog hs) ∧
    ∀ (c : Circuit) (ws : List (PinId × Word)),
      (boardAfter catalog hs).writeAll (c.saved (boardAfter catalog hs)) = boardAfter catalog hs ∧
      ∀ q ∈ c.outputs ++ c.internals,
        (((boardAfter catalog hs).writeAll ws).writeAll (c.saved (boardAfter catalog hs))).read q =
          (boardAfter catalog hs).read q := by
  have hReach : Board.empty.Reaches (boardAfter catalog hs) := reaches_happenAll { catalog } hs
  have hRange := Board.inRange_of_reaches hReach
  refine ⟨fun p pin => Board.proper_of_reaches hReach, fun later p hp => ?_, fun s later hValid => ?_,
    fun p => Board.write_read (hRange p), fun c ws => ⟨Board.writeAll_read hRange _, fun q hq => ?_⟩⟩
  · rw [boardAfter, happenAll_append]
    exact (reaches_happenAll _ later).signal?_of_lt hp
  · -- the pin is made, and then keeps its signal
    rw [boardAfter, happenAll_append, boardAfter]
    generalize happenAll { catalog } hs = b
    have hMade := signal?_place b.board hValid
    have hLt : b.board.size < (b.board.change (.place s)).size := by
      rw [← Board.signal?_isSome_iff, hMade]
      rfl
    have hLater := reaches_happenAll (b.happen (.change (.place s))) later
    exact (hLater.signal?_of_lt hLt).trans hMade
  · -- the circuit saves the pins that it writes back
    exact Board.read_restored (hRange q) ws hq

/-- A catalog with a chip that refuses, one that breaks down, and inverters of one and of sixteen bits. -/
def roughCatalog : Catalog :=
  ((Circuit.refusing.register "Not16" Chip.not16).register "Break"
    (.programmed "Break" [.bit "in"] [.bit "out"] [.copy 0 7]))

/-- The circuit `Circuit.stuck`, but that its second part breaks down. -/
def broken : Plan :=
  { Circuit.stuck with
    parts := [⟨"Not", [("in", "a"), ("out", "n")]⟩, ⟨"Break", [("in", "n"), ("out", "out")]⟩] }

/-- The circuit of `Circuit.stuck` on the pins from number 1 on. -/
def stuckGate : Gate :=
  .circuit (Circuit.stuck.circuit 1 [⟨.not, [1], [3]⟩, ⟨Circuit.refuse, [3], [2]⟩])

/-- A value that is too large, a pin that is too wide, a step that is taken back, one that ends half-way in
a chip, and one that ends in a view. -/
def rough : List Happening :=
  [.change (.place ⟨"bus", 16⟩), .change (.write 0 65535), .command (.pin "wide" ⟨"wide", 17⟩),
    .command (.circuit "stuck" Circuit.stuck false), .change (.write 2 (-1)), .change (.step stuckGate),
    .command (.circuit "broken" broken false), .command (.recompute "broken"),
    .command (.part "inverter" "Not16" true), .command (.view "screen" false none true),
    .command (.attach "inverter" "screen"), .command (.recompute "inverter")]

/-- The net inside the first circuit is clear again and its output still set, the net inside the second one
has been left set, and the inverter has inverted. All nine pins are proper, and writing back what the
first circuit saves changes none of them. -/
theorem pins_stay_in_range_rough :
    ∃ b, boardAfter roughCatalog rough = b ∧
      b.pins.toList.map (fun pin => (pin.name, pin.width, pin.value)) =
        [("bus", 16, -1), ("a", 1, 0), ("out", 1, 1), ("n", 1, 0), ("a", 1, 0), ("out", 1, 0),
          ("n", 1, 1), ("in", 16, 0), ("out", 16, -1)] ∧
      (∀ p pin, b.pin? p = some pin → pin.Proper) ∧
      b.writeAll ((Circuit.stuck.circuit 1 []).saved b) = b := by
  obtain ⟨hProper, -, -, -, hSaved⟩ := pins_stay_in_range roughCatalog rough
  exact ⟨_, rfl, by decide +kernel, hProper, (hSaved (Circuit.stuck.circuit 1 []) []).1⟩

end Breadboard.Bench
