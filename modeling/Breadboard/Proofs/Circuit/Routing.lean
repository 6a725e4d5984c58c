import Breadboard.Proofs.Chip
import Breadboard.Proofs.Circuit.Footprint

/-!
# Breadboard — where a demultiplexer sends its input

A demultiplexer compares the number of each slot, cut to a word, with its selector. So a slot is chosen if
the two numbers are the same up to a multiple of `2 ^ 16` (`Chip.Chooses`): a negative selector chooses a slot
far up, and a staging area of more than `2 ^ 16` slots has several that are chosen at once.

On pins of its own none of this shows. The selector is cut to as many bits as it takes to number the
outputs, so of every value that is written to it a residue is left, and the output of that number is the one
that is chosen (`Cell.Routes.step_written`).
-/

namespace Breadboard

-- ---------------------------------------------------------------------------
-- Slots
-- ---------------------------------------------------------------------------

namespace Chip

/-- The selector `sel` chooses slot `k`. -/
def Chooses (sel : Word) (k : Nat) : Prop := (k : Int) ≡ sel.toInt [ZMOD 2 ^ 16]

instance (sel : Word) (k : Nat) : Decidable (Chooses sel k) :=
  inferInstanceAs (Decidable (_ = _))

/-- A number cut to a word is the selector exactly if the selector chooses it. -/
theorem ofNat_eq_iff_chooses {sel : Word} {k : Nat} : Int16.ofNat k = sel ↔ Chooses sel k := by
  have hLow := sel.le_toInt
  have hHigh := sel.toInt_lt
  have hWord : sel.toInt.bmod (2 ^ 16) = sel.toInt := by
    apply Int.bmod_eq_of_le <;> omega
  have hNumber : (Int16.ofNat k).toInt = (k : Int).bmod (2 ^ 16) := Int16.toInt_ofNat'
  rw [← Int16.toInt_inj, hNumber]
  -- a word is the signed residue of all numbers that are congruent to it
  constructor
  · intro h
    unfold Chooses Int.ModEq
    rw [← h]
    exact Int.bmod_emod.symm
  · intro h
    have hSame : (k : Int) % (2 ^ 16 : Nat) = sel.toInt % (2 ^ 16 : Nat) := h
    rw [← Int.emod_bmod, hSame, Int.emod_bmod, hWord]

/-- Among up to `2 ^ 16` slots one at most is chosen. -/
theorem Chooses.unique {sel : Word} {j k : Nat} (hj : j < 2 ^ 16) (hk : k < 2 ^ 16)
    (h : Chooses sel j) (h' : Chooses sel k) : j = k := by
  have hSame : (j : Int) % 2 ^ 16 = k % 2 ^ 16 := h.trans h'.symm
  omega

/-- The selector of a pin that a value was written to chooses by the residue of the value. -/
theorem chooses_fit_iff {u : Value} {selector : Width} (hSelector : selector.toNat < 16) {k : Nat}
    (hk : k < 2 ^ selector.toNat) :
    Chooses (fit u selector) k ↔ (k : Int) = u.toInt % 2 ^ selector.toNat := by
  have hPow : 2 ^ selector.toNat ≤ 2 ^ 16 := Nat.pow_le_pow_right (by decide) (by omega)
  have hPos : (0 : Int) < 2 ^ selector.toNat := Int.pow_pos (by decide)
  have hNonneg := Int.emod_nonneg u.toInt hPos.ne'
  have hLt := Int.emod_lt_of_pos u.toInt hPos
  have hCast : ((2 ^ selector.toNat : Nat) : Int) = 2 ^ selector.toNat := Nat.cast_pow ..
  unfold Chooses Int.ModEq
  rw [toInt_fit_of_lt u hSelector]
  omega

/-- **Every slot is set**, whatever it held and however many there are. -/
theorem word?_route_chooses {n : Nat} (w sel : Word) (slots : Slots n) {k : Nat} (hk : k < n) :
    (route w sel slots).word? k = some (if Chooses sel k then w else 0) := by
  rw [word?_route w sel slots hk]
  simp only [ofNat_eq_iff_chooses]

/-- The demultiplexers, each with the number of bits of its selector. -/
inductive IsDemux : Chip → Nat → Prop
  | dmux : IsDemux dmux 1
  | dmux4Way : IsDemux dmux4Way 2
  | dmux8Way : IsDemux dmux8Way 3

/-- What the demultiplexers have in common: there are as many ways as the selector can number, and all pins
can be made. -/
theorem IsDemux.exists_routing {chip : Chip} {bits : Nat} (h : chip.IsDemux bits) :
    ∃ name selector ways, chip = routing name selector ways ∧ selector.toNat = bits ∧ bits < 16 ∧
      ways.length = 2 ^ bits ∧ ∀ b : Board, ∃ b', b.placeAll chip.signals = .ok b' := by
  cases h with
  | dmux => exact ⟨_, _, _, rfl, rfl, by decide, rfl, fun _ => ⟨_, rfl⟩⟩
  | dmux4Way => exact ⟨_, _, _, rfl, rfl, by decide, rfl, fun _ => ⟨_, rfl⟩⟩
  | dmux8Way => exact ⟨_, _, _, rfl, rfl, by decide, rfl, fun _ => ⟨_, rfl⟩⟩

end Chip

-- ---------------------------------------------------------------------------
-- Pins
-- ---------------------------------------------------------------------------

namespace Cell

/-- New pins keep the signals of the chip, whatever happens on the board. -/
theorem signal?_onNew_of_reaches {b s : Board} {chip : Chip} (h : (b.grow chip.signals).Reaches s) :
    List.Forall₂ (fun it q => s.signal? q = some it) chip.inputs (onNew b.size chip).inputs ∧
      List.Forall₂ (fun it q => s.signal? q = some it) chip.outputs (onNew b.size chip).outputs := by
  have hKept : ∀ (it : Signal) (q : PinId), (b.grow chip.signals).pin? q = some ⟨it, 0⟩ →
      s.signal? q = some it := by
    intro it q hPin
    have hSignal : (b.grow chip.signals).signal? q = some it := by
      rw [Board.signal?, hPin, Option.map_some]
    rw [h.signal?_of_lt (Board.lt_size_of_signal? hSignal), hSignal]
  obtain ⟨hInputs, hOutputs⟩ := forall₂_onNew b chip
  exact ⟨hInputs.imp hKept, hOutputs.imp hKept⟩

/-- A cell that routes, on pins as its chip declares them, as many outputs as the selector can number. -/
structure Routes (c : Cell) (s : Board) (selector : Width) (pin sel : PinId) : Prop where
  chip : ∃ name ways, c.chip = .routing name selector ways
  inputs : c.inputs = [pin, sel]
  pin : s.signal? pin = some (.bit "in")
  sel : s.signal? sel = some ⟨"sel", selector⟩
  outputs : ∀ q ∈ c.outputs, ∃ way, s.signal? q = some (.bit way)
  nodup : c.outputs.Nodup
  length : c.outputs.length = 2 ^ selector.toNat

/-- A routing chip on new pins is one, whatever has happened since. -/
theorem routes_onNew {name : String} {selector : Width} {ways : List String} {b s : Board}
    (hWays : ways.length = 2 ^ selector.toNat)
    (h : (b.grow (Chip.routing name selector ways).signals).Reaches s) :
    Routes (onNew b.size (.routing name selector ways)) s selector b.size (b.size + 1) := by
  obtain ⟨hInputs, hOutputs⟩ := signal?_onNew_of_reaches h
  obtain ⟨hIn, hSel⟩ : s.signal? b.size = some (.bit "in") ∧
      s.signal? (b.size + 1) = some ⟨"sel", selector⟩ := by
    cases hInputs with
    | cons hIn hRest =>
      cases hRest with
      | cons hSel _ => exact ⟨hIn, hSel⟩
  refine ⟨⟨name, ways, rfl⟩, rfl, hIn, hSel, fun q hq => ?_, List.nodup_range' 1, ?_⟩
  · obtain ⟨k, hk, rfl⟩ := List.getElem_of_mem hq
    have hkWay : k < (Chip.routing name selector ways).outputs.length := by rwa [hOutputs.length_eq]
    have hSignal := (List.forall₂_iff_get.mp hOutputs).2 k hkWay hk
    simp only [List.get_eq_getElem, Chip.routing, List.getElem_map] at hSignal
    exact ⟨_, hSignal⟩
  · rw [← hOutputs.length_eq, ← hWays]
    exact List.length_map _

namespace Routes

variable {c : Cell} {s : Board} {selector : Width} {pin sel : PinId}

/-- The input is found under its name … -/
theorem find?_in (h : Routes c s selector pin sel) : s.find? c.inputs "in" = some pin := by
  have hName := Board.nameOf_of_signal? h.pin
  rw [h.inputs, Board.find?, List.find?_cons_of_pos (by rw [hName]; rfl)]

/-- … and so is the selector. -/
theorem find?_sel (h : Routes c s selector pin sel) : s.find? c.inputs "sel" = some sel := by
  have hName := Board.nameOf_of_signal? h.pin
  have hName' := Board.nameOf_of_signal? h.sel
  rw [h.inputs, Board.find?, List.find?_cons_of_neg (by rw [hName]; decide),
    List.find?_cons_of_pos (by rw [hName']; rfl)]

/-- The two inputs are different pins, since they have different names. -/
theorem pin_ne_sel (h : Routes c s selector pin sel) : pin ≠ sel := by
  rintro rfl
  have hSame := h.pin.symm.trans h.sel
  simp [Signal.bit] at hSame

/-- What the inputs hold after they were written to. -/
theorem readAll_written (h : Routes c s selector pin sel) (v u : Value) :
    ((s.write pin v).write sel u).readAll c.inputs = [fit v 1, fit u selector] := by
  rw [h.inputs]
  show [((s.write pin v).write sel u).read pin, ((s.write pin v).write sel u).read sel] = _
  rw [Board.read_write_of_ne h.pin_ne_sel.symm, Board.read_write, Board.read_write, Board.widthOf_write,
    Board.widthOf_of_signal? h.pin, Board.widthOf_of_signal? h.sel]
  rfl

/-- A step routes by the words that the inputs hold, and cuts what it routes to one bit. -/
theorem step {t : Board} {w x : Word} (h : Routes c t selector pin sel)
    (hWords : t.readAll c.inputs = [w, x]) :
    ∃ t', c.step t = .ok t' ∧ ∀ k q, c.outputs[k]? = some q →
      t'.read q = fit (if Chip.Chooses x k then w else 0).toInt32 1 := by
  have hUnset : (Chip.route w x (Slots.blank c.outputs.length)).firstUnset = none :=
    Slots.firstUnset_eq_none fun k hk => ⟨_, Chip.word?_route w x _ hk⟩
  obtain ⟨name, ways, hChip⟩ := h.chip
  refine ⟨_, step_eq_ok_iff.mpr ⟨_, ?_, hUnset, rfl⟩, fun k q hq => ?_⟩
  · rw [hChip, hWords]
    rfl
  · obtain ⟨way, hSignal⟩ := h.outputs q (List.mem_of_getElem? hq)
    obtain ⟨hk, -⟩ := List.getElem?_eq_some_iff.mp hq
    rw [Board.read_writeAll_zip h.nodup hq ?_ (Board.lt_size_of_signal? hSignal),
      Board.widthOf_of_signal? hSignal]
    · rfl
    · rw [Slots.words_getElem? hUnset, Chip.word?_route_chooses w x _ hk]

/-- A write changes no signal, so the cell routes after it as before. -/
theorem write (h : Routes c s selector pin sel) (q : PinId) (v : Value) :
    Routes c (s.write q v) selector pin sel := by
  refine ⟨h.chip, h.inputs, ?_, ?_, fun r hr => ?_, h.nodup, h.length⟩
  · rw [Board.signal?_write, h.pin]
  · rw [Board.signal?_write, h.sel]
  · rw [Board.signal?_write]
    exact h.outputs r hr

/-- **The residue of what is written to the selector numbers the output** that the bit goes to. -/
theorem step_written (h : Routes c s selector pin sel) (hSelector : selector.toNat < 16) (v u : Value) :
    ∃ t, c.step ((s.write pin v).write sel u) = .ok t ∧ ∀ (k : Nat) (q : PinId), c.outputs[k]? = some q →
      (t.read q).toInt = if (k : Int) = u.toInt % 2 ^ selector.toNat then v.toInt % 2 else 0 := by
  obtain ⟨t, hStep, hRead⟩ := ((h.write pin v).write sel u).step (h.readAll_written v u)
  refine ⟨t, hStep, fun k q hq => ?_⟩
  have hk : k < 2 ^ selector.toNat := by
    rw [← h.length]
    exact (List.getElem?_eq_some_iff.mp hq).1
  rw [hRead k q hq]
  simp only [Chip.chooses_fit_iff hSelector hk]
  -- the bit was cut when it was written, and cutting it again changes nothing
  split
  · rw [fit_toInt32_fit, toInt_fit_of_lt v (by decide)]
    rfl
  · rfl

end Routes

end Cell

namespace Chip

/--
**Where the demultiplexers send their input**, `bits` being the width of the selector.

* Given any number of slots, whatever they held, and any words `w` and `sel`, all slots are set: those that
  are chosen to `w`, and the others to zero. Of two among up to `2 ^ 16` slots one at least is zero.
* A demultiplexer can be put on new pins of any board, `2 ^ bits` of them outputs. From every board that lies
  ahead, and for all values `v` and `u` that are written to its inputs in one order or the other, a step goes
  through. The output numbered by the residue of `u` then holds the lowest bit of `v`, and the others zero.
-/
theorem demultiplexers_route {chip : Chip} {bits : Nat} (h : chip.IsDemux bits) :
    (∀ (n : Nat) (slots : Slots n) (w sel : Word) (rest : List Word),
      ∃ slots', chip.evaluate (w :: sel :: rest) slots = .ok slots' ∧
        (∀ k < n, slots'.word? k = some (if Chooses sel k then w else 0)) ∧
        (n ≤ 2 ^ 16 → ∀ j < n, ∀ k < n, j ≠ k → slots'.word? j = some 0 ∨ slots'.word? k = some 0)) ∧
    ∀ b : Board, ∃ b₁ c pin sel, Cell.fresh b chip = .ok (b₁, c) ∧ c.outputs.length = 2 ^ bits ∧
      ∀ s, b₁.Reaches s →
        s.find? c.inputs "in" = some pin ∧ s.find? c.inputs "sel" = some sel ∧
        (s.widthOf sel).toNat = bits ∧
        ∀ v u : Value, ∀ t ∈ [(s.write pin v).write sel u, (s.write sel u).write pin v],
          ∃ t', c.step t = .ok t' ∧ ∀ (k : Nat) (out : PinId), c.outputs[k]? = some out →
            (t'.read out).toInt = if (k : Int) = u.toInt % 2 ^ bits then v.toInt % 2 else 0 := by
  obtain ⟨name, selector, ways, rfl, rfl, hBits, hWays, hMade⟩ := h.exists_routing
  constructor
  · intro n slots w sel rest
    refine ⟨route w sel slots, rfl, fun k hk => word?_route_chooses w sel slots hk, ?_⟩
    intro hn j hj k hk hNe
    rw [word?_route_chooses w sel slots hj, word?_route_chooses w sel slots hk]
    -- if the first slot is chosen the second is not
    by_cases hChosen : Chooses sel j
    · have hOther : ¬ Chooses sel k := fun hAlso => hNe (hChosen.unique (by omega) (by omega) hAlso)
      rw [if_neg hOther]
      exact .inr rfl
    · rw [if_neg hChosen]
      exact .inl rfl
  · intro b
    obtain ⟨b₁, hPlace⟩ := hMade b
    obtain rfl := Board.placeAll_eq_ok hPlace
    have hFresh : Cell.fresh b (routing name selector ways) = .ok (b.grow (routing name selector ways).signals,
        Cell.onNew b.size (routing name selector ways)) := by
      rw [Cell.fresh_eq, hPlace]
      rfl
    have hNew := Cell.routes_onNew hWays (.refl (b.grow (routing name selector ways).signals))
    refine ⟨_, _, b.size, b.size + 1, hFresh, hNew.length, ?_⟩
    intro s hReach
    have hRoutes := Cell.routes_onNew hWays hReach
    refine ⟨hRoutes.find?_in, hRoutes.find?_sel, ?_, ?_⟩
    · rw [Board.widthOf_of_signal? hRoutes.sel]
    · intro v u t ht
      -- the order of the two writes makes no difference
      obtain rfl : t = (s.write b.size v).write (b.size + 1) u := by
        rcases List.mem_pair.mp ht with ht | ht
        · exact ht
        · rw [ht, Board.write_comm hRoutes.pin_ne_sel.symm]
      exact hRoutes.step_written hBits v u

/-- Eight ways. In a row of 70000 slots two have the number of the selector, and a negative selector has its
slot far up. On pins of its own, with the fourth output up from before, a selector of -3 sends the lowest bit
of 3 to the sixth output. -/
theorem demultiplexers_route_eightWays :
    (∃ slots, dmux8Way.evaluate [1, 5] (Slots.blank 70000) = .ok slots ∧
      slots.word? 5 = some 1 ∧ slots.word? 6 = some 0 ∧ slots.word? 65541 = some 1) ∧
    (∃ slots, dmux8Way.evaluate [7, -1] (Slots.blank 70000) = .ok slots ∧ slots.word? 65535 = some 7) ∧
    ∃ b₁ c t, Cell.fresh .empty dmux8Way = .ok (b₁, c) ∧
      c.step (((b₁.write 5 1).write 0 3).write 1 (-3)) = .ok t ∧
      (t.read 5).toInt = 0 ∧ (t.read 7).toInt = 1 := by
  obtain ⟨hSlots, hPins⟩ := demultiplexers_route .dmux8Way
  refine ⟨?_, ?_, ?_⟩
  · obtain ⟨slots, hEval, hWords, -⟩ := hSlots 70000 (Slots.blank 70000) 1 5 []
    refine ⟨slots, hEval, (hWords 5 (by decide)).trans ?_, (hWords 6 (by decide)).trans ?_,
      (hWords 65541 (by decide)).trans ?_⟩ <;> decide
  · obtain ⟨slots, hEval, hWords, -⟩ := hSlots 70000 (Slots.blank 70000) 7 (-1) []
    exact ⟨slots, hEval, (hWords 65535 (by decide)).trans (by decide)⟩
  · obtain ⟨b₁, c, pin, sel, hFresh, -, hAhead⟩ := hPins .empty
    obtain ⟨rfl, rfl⟩ := Prod.mk.inj (Except.ok.inj hFresh)
    obtain ⟨hIn, hSel, -, hStep⟩ := hAhead _ ((Board.Reaches.refl _).change (.write 5 1))
    obtain rfl : 0 = pin := Option.some.inj hIn
    obtain rfl : 1 = sel := Option.some.inj hSel
    obtain ⟨t, hStep, hRead⟩ := hStep 3 (-3) _ (List.mem_cons_self ..)
    exact ⟨_, _, t, hFresh, hStep, hRead 3 5 rfl, hRead 5 7 rfl⟩

end Chip

end Breadboard
