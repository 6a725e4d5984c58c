import Breadboard.Chip

/-!
# Breadboard — programmed chips

A chip can be given as a short list of instructions instead of built-in logic. The instructions
run in order; the first one that fails ends the evaluation with that failure, and a `stopIf` that
applies ends it with what has been staged so far.
-/

namespace Breadboard

/-- One instruction of a programmed chip. -/
inductive Instruction where
  /-- Stages a fixed word. -/
  | set (slot : Nat) (word : Word)
  /-- Stages an input word. -/
  | copy (slot input : Nat)
  /-- Stages an input word with all bits inverted. -/
  | invert (slot input : Nat)
  /-- Faults in the chip's own name if an input holds the given word. -/
  | failIf (input : Nat) (word : Word) (message : String)
  /-- Faults in the name of `gate`. -/
  | fail (gate message : String)
  /-- Ends the evaluation here if an input holds the given word. -/
  | stopIf (input : Nat) (word : Word)
deriving DecidableEq

/-- Runs the instructions of the chip called `chip`. -/
def Instruction.run {n : Nat} (chip : String) (ws : List Word) :
    List Instruction → Slots n → Except Failure (Slots n)
  | [], slots => .ok slots
  | .set k w :: rest, slots => do
    run chip ws rest (← slots.put k w)
  | .copy k i :: rest, slots => do
    run chip ws rest (← slots.put k (← inputWord ws i))
  | .invert k i :: rest, slots => do
    run chip ws rest (← slots.put k (~~~(← inputWord ws i)))
  | .failIf i w message :: rest, slots => do
    if (← inputWord ws i) = w then
      .error (.fault (.evaluation chip message))
    else
      run chip ws rest slots
  | .fail gate message :: _, _ => .error (.fault (.evaluation gate message))
  | .stopIf i w :: rest, slots => do
    if (← inputWord ws i) = w then
      .ok slots
    else
      run chip ws rest slots

/-- A chip that computes by instructions. -/
def Chip.programmed (name : String) (inputs outputs : List Signal)
    (program : List Instruction) : Chip where
  name := name
  inputs := inputs
  outputs := outputs
  evaluate ws slots := Instruction.run name ws program slots

end Breadboard
