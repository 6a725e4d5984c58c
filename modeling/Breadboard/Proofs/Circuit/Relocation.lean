import Breadboard.Proofs.Circuit.Acceptance

/-!
# Breadboard — circuits on boards of their own

A plan can be built on any board, and the numbers of the nets are those that come next there. The
numbers are all that differs: the cells are those of the circuit that the plan makes on the empty
board, shifted by as many pins as there were before (`Plan.cells_eq_shift`).

A circuit sees no pins but its nets. Its nets, cut out of the board, are a board too
(`Board.window`), and shifted cells do on the whole board what the cells do on the window, faults
included (`Cell.steps_shift`). So two circuits made from one plan on different boards, holding the
same words, can be compared on one board: their windows are equal (`Plan.window_eq_window`).
-/

namespace Breadboard

/-! ## A window on a board -/

namespace Board

/-- The pins from `base` on, `n` of them, as a board. -/
def window (b : Board) (base n : Nat) : Board := ⟨b.pins.extract base (base + n)⟩

/-- Pin `k` of the window is pin `base + k` of the board. -/
theorem pin?_window (b : Board) (base n k : Nat) :
    (b.window base n).pin? k = if k < n then b.pin? (base + k) else none := by
  unfold window pin?
  rw [Array.getElem?_extract]
  by_cases hk : k < n
  · rw [if_pos hk]
    by_cases hSize : base + k < b.pins.size
    · rw [if_pos (by omega)]
    · rw [if_neg (by omega), Array.getElem?_eq_none (by omega)]
  · rw [if_neg hk, if_neg (by omega)]

variable {b : Board} {base n k : Nat}

/-- A window shows the words … -/
theorem read_window (hk : k < n) : (b.window base n).read k = b.read (base + k) := by
  rw [read, pin?_window, if_pos hk, read]

/-- … the names … -/
theorem nameOf_window (hk : k < n) : (b.window base n).nameOf k = b.nameOf (base + k) := by
  rw [nameOf, pin?_window, if_pos hk, nameOf]

/-- … and the signals of its pins. -/
theorem signal?_window (hk : k < n) : (b.window base n).signal? k = b.signal? (base + k) := by
  rw [signal?, pin?_window, if_pos hk, signal?]

/-- A write to a pin of the window is seen there, and no other is. -/
theorem window_write (b : Board) (base n k : Nat) (v : Value) :
    (b.write (base + k) v).window base n = (b.window base n).write k v := by
  apply ext_pin?
  intro q
  rw [pin?_window, pin?_write, pin?_write, pin?_window]
  by_cases hq : q < n
  · simp only [if_pos hq, Nat.add_left_cancel_iff]
  · simp only [if_neg hq, Option.map_none, ite_self]

/-- Many writes to pins of the window are seen there. -/
theorem window_writeAll (b : Board) (base n : Nat) (ps : List PinId) (ws : List Word) :
    (b.writeAll ((ps.map (base + ·)).zip ws)).window base n =
      (b.window base n).writeAll (ps.zip ws) := by
  induction ps generalizing b ws with
  | nil => rfl
  | cons p ps ih =>
    cases ws with
    | nil => rfl
    | cons w ws =>
      rw [List.map_cons, List.zip_cons_cons, List.zip_cons_cons, writeAll_cons, writeAll_cons, ih,
        window_write]

end Board

/-! ## Shifted cells -/

namespace Cell

/-- The same chip on pins further on. -/
def shift (base : Nat) (c : Cell) : Cell :=
  { c with inputs := c.inputs.map (base + ·), outputs := c.outputs.map (base + ·) }

/-- A step, with the number of slots under another name. -/
theorem step_eq_of_length {c : Cell} {m : Nat} (h : c.outputs.length = m) (b : Board) :
    c.step b = (c.chip.evaluate (b.readAll c.inputs) (Slots.blank m) >>= fun slots =>
      match slots.firstUnset with
      | some k => .error (.fault (.unassignedOutput c.chip.name (b.nameOf (c.outputs.getD k 0))))
      | none => .ok (b.writeAll (c.outputs.zip slots.words))) := by
  subst h
  exact step_eq c b

variable (base : Nat) {n : Nat}

/-- **A shifted cell does on the board what the cell does on the window.** -/
theorem step_shift {c : Cell} (hPins : ∀ q ∈ c.inputs ++ c.outputs, q < n) (b : Board) :
    ((c.shift base).step b).map (·.window base n) = c.step (b.window base n) := by
  -- the chip is given the words of the window
  have hRead : b.readAll (c.shift base).inputs = (b.window base n).readAll c.inputs := by
    unfold Board.readAll shift
    rw [List.map_map]
    apply List.map_congr_left
    intro q hq
    exact (Board.read_window (hPins q (List.mem_append_left _ hq))).symm
  rw [step_eq_of_length (c := c.shift base) (List.length_map _), hRead, step_eq_of_length rfl]
  show Except.map _ (c.chip.evaluate _ _ >>= _) = _
  cases c.chip.evaluate ((b.window base n).readAll c.inputs) (Slots.blank c.outputs.length) with
  | error e => rfl
  | ok slots =>
    show Except.map _ (match slots.firstUnset with | some k => _ | none => _) =
      match slots.firstUnset with | some k => _ | none => _
    cases hUnset : slots.firstUnset with
    | none =>
      exact congrArg Except.ok (Board.window_writeAll b base n c.outputs slots.words)
    | some k =>
      -- the slot that was left unset belongs to an output, which has its name in the window too
      obtain ⟨hk, -⟩ := List.findIdx?_eq_some_iff_getElem.mp hUnset
      rw [Vector.length_toList] at hk
      have hOutput : c.outputs.getD k 0 ∈ c.outputs := by
        rw [List.getD_eq_getElem?_getD, List.getElem?_eq_getElem hk]
        exact List.getElem_mem hk
      have hShift : (c.shift base).outputs.getD k 0 = base + c.outputs.getD k 0 := by
        simp [shift, List.getD_eq_getElem?_getD, List.getElem?_eq_getElem hk]
      show Except.error _ = Except.error _
      rw [hShift, Board.nameOf_window (hPins _ (List.mem_append_right _ hOutput))]
      rfl

/-- **Shifted cells do on the board what the cells do on the window.** -/
theorem steps_shift {cs : List Cell} (hPins : ∀ c ∈ cs, ∀ q ∈ c.inputs ++ c.outputs, q < n)
    (b : Board) :
    (steps (cs.map (shift base)) b).map (·.window base n) = steps cs (b.window base n) := by
  induction cs generalizing b with
  | nil => rfl
  | cons c cs ih =>
    obtain ⟨hHead, hRest⟩ := List.forall_mem_cons.mp hPins
    have hStep := step_shift base hHead b
    rw [List.map_cons, steps, steps, ← hStep]
    cases (c.shift base).step b with
    | error e => rfl
    | ok b₁ => exact ih hRest b₁

/-- Shifted cells drive shifted nets. -/
theorem driven_shift (cs : List Cell) :
    driven (cs.map (shift base)) = (driven cs).map (base + ·) := by
  rw [driven, List.flatMap_map, driven, List.map_flatMap]
  rfl

end Cell

/-! ## One plan on two boards -/

section Relations

variable {α β γ : Type}

/-- Two lists that go with the same list, member by member, in ways that determine the members of the
one by those of the other. -/
theorem eq_map_of_forall₂ {R : α → β → Prop} {S : α → γ → Prop} {f : γ → β} {l : List α}
    {bs : List β} {cs : List γ} (hR : List.Forall₂ R l bs) (hS : List.Forall₂ S l cs)
    (h : ∀ a b c, R a b → S a c → b = f c) : bs = cs.map f := by
  induction hR generalizing cs with
  | nil =>
    cases hS
    rfl
  | cons hHead _ ih =>
    cases hS with
    | cons hHead' hRest' => rw [List.map_cons, h _ _ _ hHead hHead', ih hRest']

end Relations

namespace Plan

variable {p : Plan} {catalog : Catalog} {b b' s : Board} {c : Circuit}

/-- A signal leads as much further as the nets begin further. -/
theorem resolve_shift {it : Placement} {circuit pin : String} {nets : List Signal} {base q k : Nat}
    (hq : it.resolve circuit (netPin? base nets) pin = .ok q)
    (hk : it.resolve circuit (netPin? 0 nets) pin = .ok k) : q = base + k := by
  obtain ⟨net, hLookup, hPin⟩ := Placement.resolve_eq_ok_iff.mp hq
  obtain ⟨net', hLookup', hPin'⟩ := Placement.resolve_eq_ok_iff.mp hk
  obtain rfl : net = net' := Option.some.inj (hLookup.symm.trans hLookup')
  obtain ⟨i, hi, rfl⟩ := Option.map_eq_some_iff.mp hPin
  obtain ⟨j, hj, rfl⟩ := Option.map_eq_some_iff.mp hPin'
  obtain rfl : i = j := Option.some.inj (hi.symm.trans hj)
  rw [Nat.zero_add]

/-- Whether a plan can be built does not depend on the board. -/
theorem exists_build_empty (h : p.build catalog b = .ok (b', c)) :
    ∃ b₀ c₀, p.build catalog .empty = .ok (b₀, c₀) := by
  have hNone := (p.reports_build catalog b).ok_iff.mp ⟨_, h⟩
  obtain ⟨⟨b₀, c₀⟩, h₀⟩ := (p.reports_build catalog .empty).ok_iff.mpr hNone
  exact ⟨b₀, c₀, h₀⟩

/-- **The cells of a circuit are those on the empty board, shifted.** -/
theorem cells_eq_shift {b₀ : Board} {c₀ : Circuit} (h : p.build catalog b = .ok (b', c))
    (h₀ : p.build catalog .empty = .ok (b₀, c₀)) : c.cells = c₀.cells.map (Cell.shift b.size) := by
  obtain ⟨-, cells, rfl, hCells⟩ := build_eq_ok_iff.mp h
  obtain ⟨-, cells₀, rfl, hCells₀⟩ := build_eq_ok_iff.mp h₀
  -- part by part: the same chip, and each signal on the same net
  refine eq_map_of_forall₂ hCells hCells₀ fun it cell cell₀ hCell hCell₀ => ?_
  obtain ⟨hChip, hInputs, hOutputs⟩ := Placement.cell_eq_ok hCell
  obtain ⟨hChip₀, hInputs₀, hOutputs₀⟩ := Placement.cell_eq_ok hCell₀
  obtain ⟨chip, inputs, outputs⟩ := cell
  obtain ⟨chip₀, inputs₀, outputs₀⟩ := cell₀
  obtain rfl : chip = chip₀ := Except.ok.inj (hChip.symm.trans hChip₀)
  have hInputsEq : inputs = inputs₀.map (b.size + ·) :=
    eq_map_of_forall₂ hInputs hInputs₀ fun _ _ _ => resolve_shift
  have hOutputsEq : outputs = outputs₀.map (b.size + ·) :=
    eq_map_of_forall₂ hOutputs hOutputs₀ fun _ _ _ => resolve_shift
  rw [hInputsEq, hOutputsEq]
  rfl

/-- On the empty board, the cells of a circuit are on the pins that the plan has nets for. -/
theorem cell_pins_lt {b₀ : Board} {c₀ : Circuit} (h₀ : p.build catalog .empty = .ok (b₀, c₀)) :
    ∀ cell ∈ c₀.cells, ∀ q ∈ cell.inputs ++ cell.outputs, q < p.nets.length := by
  intro cell hCell q hq
  have hNet := cell_pins_of_build h₀ hCell hq
  rw [nets_of_build h₀, List.mem_range'_1] at hNet
  exact Nat.lt_of_lt_of_eq hNet.2 (Nat.zero_add _)

/-- The signals in the window of a circuit are the nets that the plan declares. -/
theorem signal?_window_of_build (h : p.build catalog b = .ok (b', c)) (hReach : b'.Reaches s)
    (k : Nat) : (s.window b.size p.nets.length).signal? k = p.nets[k]? := by
  by_cases hk : k < p.nets.length
  · have hNet : b.size + k ∈ c.nets := by
      rw [nets_of_build h, List.mem_range'_1]
      omega
    obtain ⟨hPlace, -⟩ := build_eq_ok_iff.mp h
    obtain ⟨-, -, rfl⟩ := Board.placeNets_eq_ok_iff.mp hPlace
    rw [Board.signal?_window hk, hReach.signal?_of_lt (lt_size_of_build h hNet), Board.signal?,
      Board.pin?_grow_of_le (Nat.le_add_right ..), Nat.add_sub_cancel_left,
      List.getElem?_eq_getElem hk]
    rfl
  · -- behind the nets the window ends
    rw [Board.signal?, Board.pin?_window, if_neg hk, List.getElem?_eq_none (by omega)]
    rfl

/-- The words on the nets of a circuit are those in its window. -/
theorem readAll_nets_of_build (h : p.build catalog b = .ok (b', c)) (s : Board) :
    s.readAll c.nets =
      (List.range p.nets.length).map (s.window b.size p.nets.length).read := by
  rw [nets_of_build h, List.range'_eq_map_range, Board.readAll, List.map_map]
  apply List.map_congr_left
  intro k hk
  exact (Board.read_window (List.mem_range.mp hk)).symm

/-- **Circuits with the same nets, holding the same words, have equal windows.** -/
theorem window_eq_window {p₂ : Plan} {b₂ b₂' s₂ : Board} {c₂ : Circuit}
    (h : p.build catalog b = .ok (b', c)) (h₂ : p₂.build catalog b₂ = .ok (b₂', c₂))
    (hNets : p.nets = p₂.nets) (hReach : b'.Reaches s) (hReach₂ : b₂'.Reaches s₂)
    (hWords : s.readAll c.nets = s₂.readAll c₂.nets) :
    s.window b.size p.nets.length = s₂.window b₂.size p₂.nets.length := by
  rw [readAll_nets_of_build h, readAll_nets_of_build h₂, ← hNets, List.map_inj_left] at hWords
  rw [← hNets]
  apply Board.ext_read
  · intro k
    have hSignal := signal?_window_of_build h₂ hReach₂ k
    rw [← hNets] at hSignal
    rw [signal?_window_of_build h hReach, hSignal]
  · intro k
    by_cases hk : k < p.nets.length
    · exact hWords k (List.mem_range.mpr hk)
    · rw [Board.read, Board.read, Board.pin?_window, Board.pin?_window, if_neg hk, if_neg hk]

end Plan

end Breadboard
