import Breadboard.Catalog
import Breadboard.Proofs.Circuit.Step
import Mathlib.Data.List.Basic

/-!
# Breadboard — chips that never fail

A chip can let its caller down in three ways: it refuses its input words, it breaks down, or it ends
with an output that it has given no word for. `Chip.Accepts` excludes the first two, `Chip.NeverFails`
all three, whatever the input words are. Every standard chip is of the second kind
(`Catalog.neverFails_of_create`); programmed ones need not be.
-/

namespace Breadboard

/-- Given a word for every input and a slot for every output, the chip neither refuses them nor breaks
down. It may leave slots unset. -/
def Chip.Accepts (chip : Chip) : Prop :=
  ∀ ws : List Word, ws.length = chip.inputs.length →
    ∃ slots, chip.evaluate ws (Slots.blank chip.outputs.length) = .ok slots

/-- Given a word for every input and a slot for every output, the chip gives a word for every
output. -/
def Chip.NeverFails (chip : Chip) : Prop :=
  ∀ ws : List Word, ws.length = chip.inputs.length →
    ∃ slots, chip.evaluate ws (Slots.blank chip.outputs.length) = .ok slots ∧
      slots.firstUnset = none

namespace Chip

/-- A chip that never fails neither refuses nor breaks down. -/
theorem NeverFails.accepts {chip : Chip} (h : chip.NeverFails) : chip.Accepts := by
  intro ws hLength
  obtain ⟨slots, hEval, -⟩ := h ws hLength
  exact ⟨slots, hEval⟩

/-- A chip that joins two words sets its one slot. -/
theorem joining_neverFails (name : String) (op : Word → Word → Word) :
    (joining name op).NeverFails := by
  intro ws hLength
  obtain ⟨a, b, rfl⟩ := List.length_eq_two.mp hLength
  exact ⟨_, rfl, rfl⟩

theorem not_neverFails : not.NeverFails := by
  intro ws hLength
  obtain ⟨w, rfl⟩ := List.length_eq_one_iff.mp hLength
  exact ⟨_, rfl, rfl⟩

theorem not16_neverFails : not16.NeverFails := by
  intro ws hLength
  obtain ⟨w, rfl⟩ := List.length_eq_one_iff.mp hLength
  exact ⟨_, rfl, rfl⟩

/-- A chip that selects finds the word that it selects. -/
theorem selecting_neverFails (name : String) (width : Width) :
    (selecting name width).NeverFails := by
  intro ws hLength
  obtain ⟨a, b, sel, rfl⟩ := List.length_eq_three.mp hLength
  -- both data inputs are there, so it does not matter which one is looked at
  obtain ⟨w, hw⟩ : ∃ w, inputWord [a, b, sel] (if sel = 0 then 0 else 1) = .ok w := by
    split
    · exact ⟨a, rfl⟩
    · exact ⟨b, rfl⟩
  refine ⟨(Slots.blank 1).set 0 (some w), ?_, rfl⟩
  show (inputWord [a, b, sel] (if sel = 0 then 0 else 1) >>= fun w => (Slots.blank 1).put 0 w) = _
  rw [hw]
  rfl

/-- The slot that the selector names gets the word, all others get zero. -/
theorem word?_route {n : Nat} (w sel : Word) (slots : Slots n) {k : Nat} (hk : k < n) :
    (route w sel slots).word? k = some (if Int16.ofNat k = sel then w else 0) := by
  simp [route, Slots.word?, hk]

/-- A chip that routes sets all slots, whatever the selector says. -/
theorem routing_neverFails (name : String) (selector : Width) (ways : List String) :
    (routing name selector ways).NeverFails := by
  intro ws hLength
  obtain ⟨w, sel, rfl⟩ := List.length_eq_two.mp hLength
  refine ⟨_, rfl, Slots.firstUnset_eq_none fun k hk => ⟨_, word?_route w sel _ hk⟩⟩

/-- All eleven standard chips are of one of these kinds. -/
theorem standard_neverFails : ∀ chip ∈ standard, chip.NeverFails := by
  simp only [standard, List.forall_mem_cons]
  exact ⟨joining_neverFails _ _, not_neverFails, joining_neverFails _ _, joining_neverFails _ _,
    joining_neverFails _ _, not16_neverFails, selecting_neverFails _ _, selecting_neverFails _ _,
    routing_neverFails _ _ _, routing_neverFails _ _ _, routing_neverFails _ _ _, nofun⟩

end Chip

namespace Catalog

/-- A name stands for the chip that was registered last under it. -/
theorem create_register (c : Catalog) (name other : String) (chip : Chip) :
    (c.register name chip).create other = if name = other then .ok chip else c.create other := by
  unfold create register
  rw [Std.TreeMap.getElem?_insert]
  by_cases h : name = other <;> simp [h]

/-- Whatever a catalog has after some chips were registered, it had before or is one of them. -/
theorem mem_of_create_foldl {chips : List Chip} {c : Catalog} {name : String} {chip : Chip}
    (h : (chips.foldl (fun c chip => c.register chip.name chip) c).create name = .ok chip) :
    chip ∈ chips ∨ c.create name = .ok chip := by
  induction chips generalizing c with
  | nil => exact .inr h
  | cons it chips ih =>
    rcases ih h with hLater | hEarlier
    · exact .inl (List.mem_cons_of_mem _ hLater)
    · rw [create_register] at hEarlier
      split at hEarlier
      · obtain rfl : it = chip := Except.ok.inj hEarlier
        exact .inl (List.mem_cons_self ..)
      · exact .inr hEarlier

/-- **No chip of the standard catalog ever fails.** -/
theorem neverFails_of_create {name : String} {chip : Chip}
    (h : standard.create name = .ok chip) : chip.NeverFails := by
  rcases mem_of_create_foldl h with hMem | hEmpty
  · exact Chip.standard_neverFails chip hMem
  · simp [create, empty] at hEmpty

end Catalog

end Breadboard
