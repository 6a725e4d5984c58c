import Breadboard.Chip.Program
import Breadboard.Proofs.Circuit.Footprint

/-!
# Breadboard — cells on shared pins

One pin may stand in several places of a cell: it may be read twice, written twice, or read and written.
`Cell.step_all_or_nothing` says what a step comes to then, by the slots that the chip has staged:

* a chip that fails, and a chip that leaves a slot unset, leave the board as it was. In the second case the
  fault names the pin of the lowest slot without a word (`Slots.IsLowestUnset`);
* otherwise every output holds the word of the last slot that it fills (`Cell.IsLastSlot`), cut to its
  width, and no other pin has changed. The words are computed from what the inputs held before the step.
-/

namespace Breadboard

/-- No word was ever set in slot `k`, and one was in every slot below. -/
def Slots.IsLowestUnset {n : Nat} (s : Slots n) (k : Nat) : Prop :=
  k < n ∧ s.word? k = none ∧ ∀ j < k, s.word? j ≠ none

instance {n : Nat} (s : Slots n) (k : Nat) : Decidable (s.IsLowestUnset k) :=
  inferInstanceAs (Decidable (_ ∧ _ ∧ _))

/-- The search for a slot without a word finds the lowest one. -/
theorem Slots.firstUnset_eq_some_iff {n : Nat} {s : Slots n} {k : Nat} :
    s.firstUnset = some k ↔ s.IsLowestUnset k := by
  have hWord : ∀ j (hj : j < s.toList.length), s.toList[j] = s.word? j := by
    intro j hj
    rw [Vector.length_toList] at hj
    rw [word?, Vector.getElem?_eq_getElem hj, Option.join_some, Vector.getElem_toList]
  unfold firstUnset IsLowestUnset
  rw [List.findIdx?_eq_some_iff_getElem]
  simp only [hWord, Option.isNone_iff_eq_none, exists_prop, Vector.length_toList, ne_eq]

namespace Cell

/-- What the chip of a cell makes of the words that the inputs hold. -/
def computed (c : Cell) (b : Board) : Except Failure (Slots c.outputs.length) :=
  c.chip.evaluate (b.readAll c.inputs) (Slots.blank c.outputs.length)

/-- Slot `k` is for the pin `p`, and no slot after it is. -/
def IsLastSlot (c : Cell) (p : PinId) (k : Nat) : Prop :=
  c.outputs[k]? = some p ∧ p ∉ c.outputs.drop (k + 1)

instance (c : Cell) (p : PinId) (k : Nat) : Decidable (c.IsLastSlot p k) :=
  inferInstanceAs (Decidable (_ ∧ _))

/-- No slot for a pin comes after its last one. -/
theorem IsLastSlot.le {c : Cell} {p : PinId} {k k' : Nat} (h : c.IsLastSlot p k)
    (hk' : c.outputs[k']? = some p) : k' ≤ k := by
  by_contra hLt
  refine h.2 (List.mem_of_getElem? (i := k' - (k + 1)) ?_)
  rw [List.getElem?_drop, Nat.add_sub_cancel' (by omega), hk']

/-- A pin has one last slot at most. -/
theorem IsLastSlot.unique {c : Cell} {p : PinId} {k k' : Nat} (h : c.IsLastSlot p k)
    (h' : c.IsLastSlot p k') : k = k' :=
  Nat.le_antisymm (h'.le h.1) (h.le h'.1)

/-- Every output of a cell has a last slot. -/
theorem exists_isLastSlot {c : Cell} {p : PinId} (hp : p ∈ c.outputs) : ∃ k, c.IsLastSlot p k := by
  unfold IsLastSlot
  generalize c.outputs = ps at hp
  induction ps with
  | nil => cases hp
  | cons q ps ih =>
    -- the last slot is found behind the first, or else is the first
    by_cases hLater : p ∈ ps
    · obtain ⟨k, hk, hLast⟩ := ih hLater
      exact ⟨k + 1, by simpa using hk, hLast⟩
    · obtain rfl : p = q := (List.mem_cons.mp hp).resolve_right hLater
      exact ⟨0, rfl, hLater⟩

/-- A step that goes through, by what has become of each pin. -/
theorem pin?_of_written {c : Cell} {slots : Slots c.outputs.length} (h : slots.firstUnset = none)
    (b : Board) {p : PinId} {k : Nat} (hLast : c.IsLastSlot p k) :
    ∃ w, slots.word? k = some w ∧
      (b.writeAll (c.outputs.zip slots.words)).pin? p = (b.pin? p).map (·.write w.toInt32) := by
  obtain ⟨hLt, -⟩ := List.getElem?_eq_some_iff.mp hLast.1
  obtain ⟨w, hw⟩ := Slots.exists_word?_of_lt h hLt
  have hWord : slots.words[k]? = some w := by rw [Slots.words_getElem? h, hw]
  exact ⟨w, hw, Board.pin?_writeAll_zip hLast.1 hLast.2 hWord⟩

/--
**A step writes all or nothing, and reads before it writes**, whichever pins stand in more than one place.

* If the chip fails, so does the step, and all pins are as before.
* If the chip leaves slots unset, the fault is for the pin of the lowest of them, and all pins are as before.
* Otherwise the step goes through. Every output holds the word of the last slot that it fills, cut to its
  width, whatever earlier slots it fills and whether or not the chip has read it; all other pins are as
  before.
-/
theorem step_all_or_nothing (c : Cell) (b : Board) :
    (∀ e, c.computed b = .error e → c.stepped b = ⟨b, [], .error e⟩) ∧
    (∀ slots k, c.computed b = .ok slots → slots.IsLowestUnset k →
      ∃ p, c.outputs[k]? = some p ∧
        c.stepped b = ⟨b, [], .error (.fault (.unassignedOutput c.chip.name (b.nameOf p)))⟩) ∧
    (∀ slots, c.computed b = .ok slots → (¬ ∃ k, slots.IsLowestUnset k) →
      ∃ b', c.stepped b = ⟨b', [c.notice b], .ok ()⟩ ∧
        (∀ p ∈ c.outputs, ∃ k w, c.IsLastSlot p k ∧ slots.word? k = some w ∧
          b'.pin? p = (b.pin? p).map fun pin => { pin with value := fit w.toInt32 pin.width }) ∧
        ∀ q, q ∉ c.outputs → b'.pin? q = b.pin? q) := by
  refine ⟨fun e hFailed => ?_, fun slots k hComputed hLowest => ?_, fun slots hComputed hSet => ?_⟩
  · -- the chip fails
    have hStep : c.step b = .error e := by
      rw [step_eq]
      show (c.computed b >>= _) = _
      rw [hFailed]
      rfl
    exact stepped_of_error hStep
  · -- a slot has no word
    have hUnset := Slots.firstUnset_eq_some_iff.mpr hLowest
    have hPin : c.outputs[k]? = some (c.outputs.getD k 0) := by
      rw [List.getD_eq_getElem?_getD, List.getElem?_eq_getElem hLowest.1, Option.getD_some]
    have hStep : c.step b =
        .error (.fault (.unassignedOutput c.chip.name (b.nameOf (c.outputs.getD k 0)))) := by
      rw [step_eq]
      show (c.computed b >>= _) = _
      simp only [hComputed, bind, Except.bind, hUnset]
    exact ⟨_, hPin, stepped_of_error hStep⟩
  · -- every slot has a word
    have hUnset : slots.firstUnset = none := by
      rw [Option.eq_none_iff_forall_ne_some]
      exact fun k hk => hSet ⟨k, Slots.firstUnset_eq_some_iff.mp hk⟩
    have hStep : c.step b = .ok (b.writeAll (c.outputs.zip slots.words)) :=
      step_eq_ok_iff.mpr ⟨slots, hComputed, hUnset, rfl⟩
    refine ⟨b.writeAll (c.outputs.zip slots.words), stepped_of_ok hStep, fun p hp => ?_,
      fun q hq => ?_⟩
    · obtain ⟨k, hLast⟩ := exists_isLastSlot hp
      obtain ⟨w, hw, hPin⟩ := pin?_of_written hUnset b hLast
      exact ⟨k, w, hLast, hw, hPin⟩
    · refine Board.pin?_writeAll_of_not_mem fun w hw hEq => hq ?_
      rw [← hEq]
      exact (List.of_mem_zip hw).1

/-- A chip that swaps its inputs, and inverts the first one after that. It faults on one word, and stops
half-way on another. -/
def shuffle : Chip :=
  .programmed "Shuffle" [⟨"x", 3⟩, ⟨"y", 16⟩] [⟨"u", 3⟩, ⟨"v", 16⟩, ⟨"w", 3⟩]
    [.copy 0 1, .failIf 1 7 "seven", .stopIf 1 0, .invert 2 0, .copy 1 0]

/-- The chip on two pins, each of which it reads and writes; it writes the first one twice. -/
def shuffled : Cell := ⟨shuffle, [0, 1], [0, 1, 0]⟩

/-- The board of `shuffled`, with the second pin holding `y`. -/
def shuffleBoard (y : Word) : Board := ⟨#[⟨⟨"a", 3⟩, 5⟩, ⟨⟨"b", 16⟩, y⟩]⟩

/-- The second pin gets the word that the first one held, though that is written first, and the first pin
that word inverted and cut, not the word of the second. A fault after the first slot is set, and a chip
that stops there, change nothing. -/
theorem step_all_or_nothing_shuffled :
    Cell.wire (shuffleBoard 9) shuffle [0, 1] [0, 1, 0] = .ok shuffled ∧
    shuffled.stepped (shuffleBoard 7) =
      ⟨shuffleBoard 7, [], .error (.fault (.evaluation "Shuffle" "seven"))⟩ ∧
    shuffled.stepped (shuffleBoard 0) =
      ⟨shuffleBoard 0, [], .error (.fault (.unassignedOutput "Shuffle" "b"))⟩ ∧
    ∃ b', shuffled.stepped (shuffleBoard 9) = ⟨b', [.cellStepped "Shuffle" [5, 9]], .ok ()⟩ ∧
      b'.pin? 0 = some ⟨⟨"a", 3⟩, 2⟩ ∧ b'.pin? 1 = some ⟨⟨"b", 16⟩, 5⟩ := by
  refine ⟨rfl, (step_all_or_nothing shuffled (shuffleBoard 7)).1 _ rfl, ?_, ?_⟩
  · have hLowest : Slots.IsLowestUnset (n := 3) #v[some 0, none, none] 1 := by decide
    obtain ⟨p, hp, hStepped⟩ := (step_all_or_nothing shuffled (shuffleBoard 0)).2.1 _ 1 rfl hLowest
    obtain rfl : 1 = p := Option.some.inj hp
    exact hStepped
  · have hAll : ¬ ∃ k, Slots.IsLowestUnset (n := 3) #v[some 9, some 5, some (-6)] k := by
      rintro ⟨k, hk⟩
      cases Slots.firstUnset_eq_some_iff.mpr hk
    obtain ⟨b', hStepped, hOutputs, -⟩ :=
      (step_all_or_nothing shuffled (shuffleBoard 9)).2.2 _ rfl hAll
    refine ⟨b', hStepped, ?_, ?_⟩
    · obtain ⟨k, w, hLast, hw, hPin⟩ := hOutputs 0 (by decide)
      have hThird : shuffled.IsLastSlot 0 2 := by decide
      obtain rfl := hLast.unique hThird
      obtain rfl : -6 = w := Option.some.inj hw
      exact hPin
    · obtain ⟨k, w, hLast, hw, hPin⟩ := hOutputs 1 (by decide)
      have hSecond : shuffled.IsLastSlot 1 1 := by decide
      obtain rfl := hLast.unique hSecond
      obtain rfl : 5 = w := Option.some.inj hw
      exact hPin

end Cell

end Breadboard
