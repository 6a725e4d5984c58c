import Breadboard.Circuit.Plan
import Breadboard.Proofs.Circuit.Step
import Mathlib.Data.List.Forall2

/-!
# Breadboard — what building a plan makes

A plan that can be built makes one new pin for every net, numbered in the order of `Plan.nets`, and
one cell for every part, on these pins (`Plan.build_eq_ok_iff`). What the later modules take from
it about the circuit and its nets:

* `Plan.nets_of_build` — the nets of the circuit are the new pins, each once;
* `Plan.inRange_of_build` — they hold words that their widths can hold;
* `Plan.cell_pins_of_build` — the cells are on nets of the circuit.
-/

namespace Breadboard

/-! ## Computations that may be refused -/

section Refusal

variable {α β ε : Type}

/-- What follows a computation goes through if both do. -/
theorem bind_eq_ok_iff {x : Except ε α} {f : α → Except ε β} {r : β} :
    (x >>= f) = .ok r ↔ ∃ a, x = .ok a ∧ f a = .ok r := by
  cases x with
  | error e => simp [bind, Except.bind]
  | ok a => simp [bind, Except.bind]

/-- A computation for every member goes through if each one does, with the results in order. -/
theorem mapM_eq_ok_iff {f : α → Except ε β} {l : List α} {l' : List β} :
    l.mapM f = .ok l' ↔ List.Forall₂ (fun a b => f a = .ok b) l l' := by
  induction l generalizing l' with
  | nil => simp [pure, Except.pure, eq_comm]
  | cons a l ih =>
    rw [List.mapM_cons, bind_eq_ok_iff]
    constructor
    · rintro ⟨b, hb, hRest⟩
      obtain ⟨bs, hbs, hl'⟩ := bind_eq_ok_iff.mp hRest
      obtain rfl : b :: bs = l' := Except.ok.inj hl'
      exact .cons hb (ih.mp hbs)
    · intro h
      cases h with
      | cons hb hRest => exact ⟨_, hb, bind_eq_ok_iff.mpr ⟨_, ih.mpr hRest, rfl⟩⟩

/-- Every result comes from a member. -/
theorem exists_of_forall₂_ok {f : α → Except ε β} {l : List α} {l' : List β}
    (h : List.Forall₂ (fun a b => f a = .ok b) l l') {b : β} (hb : b ∈ l') :
    ∃ a ∈ l, f a = .ok b := by
  induction h with
  | nil => simp at hb
  | cons hHead _ ih =>
    rcases List.mem_cons.mp hb with rfl | hb
    · exact ⟨_, List.mem_cons_self .., hHead⟩
    · obtain ⟨a, ha, hf⟩ := ih hb
      exact ⟨a, List.mem_cons_of_mem _ ha, hf⟩

end Refusal

/-! ## Nets -/

namespace Board

/-- The board with a new pin for every signal. -/
def grow (b : Board) (ss : List Signal) : Board :=
  ⟨b.pins ++ (ss.map fun s => ⟨s, 0⟩).toArray⟩

/-- There is a pin more for every signal. -/
theorem size_grow (b : Board) (ss : List Signal) : (b.grow ss).size = b.size + ss.length := by
  simp [grow, size]

/-- New pins are numbered in the order of the signals, and hold zero. -/
theorem pin?_grow_of_le {b : Board} {ss : List Signal} {q : PinId} (h : b.size ≤ q) :
    (b.grow ss).pin? q = ss[q - b.size]?.map fun s => ⟨s, 0⟩ := by
  unfold pin? grow
  rw [Array.getElem?_append_right h]
  simp [size]

/-- New pins are placed one by one. -/
theorem grow_cons (b : Board) (s : Signal) (ss : List Signal) :
    b.grow (s :: ss) = (b.place ⟨s, 0⟩).grow ss := by
  simp [grow, place]

/-- New pins hold zero, and zero fits every width. -/
theorem inRange_grow_of_le {b : Board} {ss : List Signal} {q : PinId} (h : b.size ≤ q) :
    (b.grow ss).InRange q := by
  unfold InRange read widthOf
  rw [pin?_grow_of_le h]
  cases ss[q - b.size]? with
  | none => exact fit_zero 0
  | some s => exact fit_zero s.width

/-- **Which nets can be made**: those of valid widths and names that are all different, also from
those seen before. -/
theorem placeNets_eq_ok_iff {b b' : Board} {circuit : String} {seen : List String}
    {ss : List Signal} :
    b.placeNets circuit seen ss = .ok b' ↔
      (∀ s ∈ ss, s.width.isValid = true ∧ s.name ∉ seen) ∧ (ss.map Signal.name).Nodup ∧
        b' = b.grow ss := by
  induction ss generalizing b seen with
  | nil =>
    have hGrow : b.grow [] = b := by simp [grow]
    simp only [placeNets, Except.ok.injEq, hGrow]
    constructor
    · rintro rfl
      exact ⟨nofun, List.nodup_nil, rfl⟩
    · rintro ⟨-, -, rfl⟩
      rfl
  | cons s ss ih =>
    -- the first net is refused for its width, then for its name; what is seen behind it is one name more
    rw [placeNets, bind_eq_ok_iff, grow_cons, List.map_cons, List.nodup_cons, List.forall_mem_cons]
    unfold Pin.ofSignal
    by_cases hWidth : s.width.isValid = true
    · by_cases hSeen : s.name ∈ seen
      · simp [hWidth, hSeen]
      · simp only [hWidth, if_true, Except.ok.injEq, exists_eq_left', if_neg hSeen, ih]
        simp only [List.mem_cons, not_or, List.mem_map, not_exists, not_and, true_and]
        constructor
        · rintro ⟨hAll, hNodup, rfl⟩
          exact ⟨⟨hSeen, fun t ht => ⟨(hAll t ht).1, (hAll t ht).2.2⟩⟩,
            ⟨fun t ht => (hAll t ht).2.1, hNodup⟩, rfl⟩
        · rintro ⟨⟨-, hAll⟩, ⟨hFresh, hNodup⟩, rfl⟩
          exact ⟨fun t ht => ⟨(hAll t ht).1, hFresh t ht, (hAll t ht).2⟩, hNodup, rfl⟩
    · simp [hWidth]

end Board

/-- The pins of nets are numbered from `base` on. -/
theorem netPin?_eq_some {base : PinId} {nets : List Signal} {name : String} {p : PinId}
    (h : netPin? base nets name = some p) : base ≤ p ∧ p < base + nets.length := by
  obtain ⟨k, hk, rfl⟩ := Option.map_eq_some_iff.mp h
  obtain ⟨hLt, -⟩ := List.findIdx?_eq_some_iff_getElem.mp hk
  exact ⟨Nat.le_add_right .., Nat.add_lt_add_left hLt _⟩

/-! ## Parts -/

/-- Pins of the right widths are accepted. -/
theorem Cell.checkSide_eq_ok {b : Board} {ss : List Signal} {ps : List PinId}
    (h : List.Forall₂ (fun s p => s.width = b.widthOf p) ss ps) (chip : String) (side : Side) :
    checkSide b chip side ss ps = .ok () := by
  rw [checkSide, if_neg (not_not_intro h.length_eq)]
  split
  next s p hFound =>
    -- a signal that was found to differ does not
    have hWidth := (List.forall₂_iff_zip.mp h).2 (List.mem_of_find?_eq_some hFound)
    have hDiffer := List.find?_some hFound
    simp [hWidth] at hDiffer
  next => rfl

namespace Placement

/-- A signal leads to a pin if it is connected to a net and the net is declared. -/
theorem resolve_eq_ok_iff {it : Placement} {circuit : String} {net? : String → Option PinId}
    {pin : String} {p : PinId} :
    it.resolve circuit net? pin = .ok p ↔
      ∃ net, it.connections.lookup pin = some net ∧ net? net = some p := by
  unfold resolve
  cases it.connections.lookup pin with
  | none => simp
  | some net => cases h : net? net <;> simp [h]

/-- What the cell of a part is made of: the chip that the part names, and for each signal the pin that
the signal leads to. -/
theorem cell_eq_ok {it : Placement} {catalog : Catalog} {b : Board} {circuit : String}
    {net? : String → Option PinId} {c : Cell} (h : it.cell catalog b circuit net? = .ok c) :
    catalog.create it.chip = .ok c.chip ∧
      List.Forall₂ (fun s q => it.resolve circuit net? s.name = .ok q) c.chip.inputs c.inputs ∧
      List.Forall₂ (fun s q => it.resolve circuit net? s.name = .ok q) c.chip.outputs c.outputs := by
  -- the six stages in order: chip, connections, inputs, outputs, widths on either side
  obtain ⟨chip, hChip, h⟩ := bind_eq_ok_iff.mp h
  obtain ⟨-, -, h⟩ := bind_eq_ok_iff.mp h
  obtain ⟨inputs, hInputs, h⟩ := bind_eq_ok_iff.mp h
  obtain ⟨outputs, hOutputs, h⟩ := bind_eq_ok_iff.mp h
  obtain ⟨-, -, h⟩ := bind_eq_ok_iff.mp h
  obtain ⟨-, -, h⟩ := bind_eq_ok_iff.mp h
  obtain rfl : ⟨chip, inputs, outputs⟩ = c := Except.ok.inj h
  exact ⟨hChip, mapM_eq_ok_iff.mp hInputs, mapM_eq_ok_iff.mp hOutputs⟩

/-- Every pin of the cell of a part is a net that the part names. -/
theorem cell_pins {it : Placement} {catalog : Catalog} {b : Board} {circuit : String}
    {net? : String → Option PinId} {c : Cell} (h : it.cell catalog b circuit net? = .ok c) :
    ∀ p ∈ c.inputs ++ c.outputs, ∃ net, net? net = some p := by
  obtain ⟨-, hInputs, hOutputs⟩ := cell_eq_ok h
  -- both sides are resolved by the same rule
  have hSide : ∀ (ss : List Signal) (ps : List PinId),
      List.Forall₂ (fun s q => it.resolve circuit net? s.name = .ok q) ss ps →
      ∀ p ∈ ps, ∃ net, net? net = some p := by
    intro ss ps hps p hp
    obtain ⟨s, -, hs⟩ := exists_of_forall₂_ok hps hp
    obtain ⟨net, -, hNet⟩ := resolve_eq_ok_iff.mp hs
    exact ⟨net, hNet⟩
  intro p hp
  rcases List.mem_append.mp hp with hp | hp
  · exact hSide _ _ hInputs p hp
  · exact hSide _ _ hOutputs p hp

end Placement

/-! ## Circuits -/

/-- All nets of a circuit. -/
def Circuit.nets (c : Circuit) : List PinId := c.inputs ++ c.outputs ++ c.internals

theorem Circuit.mem_nets {c : Circuit} {q : PinId} :
    q ∈ c.nets ↔ q ∈ c.inputs ∨ q ∈ c.outputs ++ c.internals := by
  rw [nets, List.append_assoc, List.mem_append]

namespace Plan

/-- The circuit of a plan whose nets have the numbers from `base` on. -/
def circuit (p : Plan) (base : PinId) (cells : List Cell) : Circuit where
  name := p.name
  inputs := List.range' base p.inputs.length
  outputs := List.range' (base + p.inputs.length) p.outputs.length
  internals := List.range' (base + p.inputs.length + p.outputs.length) p.internals.length
  cells := cells

/-- **What building makes**: all nets, then a cell for every part. -/
theorem build_eq_ok_iff {p : Plan} {catalog : Catalog} {b b' : Board} {c : Circuit} :
    p.build catalog b = .ok (b', c) ↔
      b.placeNets p.name [] p.nets = .ok b' ∧
      ∃ cells, c = p.circuit b.size cells ∧
        List.Forall₂ (fun it cell => it.cell catalog b' p.name (netPin? b.size p.nets) = .ok cell)
          p.parts cells := by
  unfold build
  rw [bind_eq_ok_iff]
  constructor
  · rintro ⟨b₁, hNets, h⟩
    obtain ⟨cells, hCells, h⟩ := bind_eq_ok_iff.mp h
    obtain ⟨rfl, rfl⟩ := Prod.mk.inj (Except.ok.inj h)
    exact ⟨hNets, cells, rfl, mapM_eq_ok_iff.mp hCells⟩
  · rintro ⟨hNets, cells, rfl, hCells⟩
    exact ⟨b', hNets, bind_eq_ok_iff.mpr ⟨cells, mapM_eq_ok_iff.mpr hCells, rfl⟩⟩

section Built

variable {p : Plan} {catalog : Catalog} {b b' : Board} {c : Circuit}

/-- The nets of a circuit are numbered in a row: inputs, outputs, internal nets. -/
theorem nets_circuit (p : Plan) (base : PinId) (cells : List Cell) :
    (p.circuit base cells).nets = List.range' base p.nets.length := by
  simp only [Circuit.nets, circuit, nets, List.length_append]
  rw [List.range'_append_1, Nat.add_assoc, List.range'_append_1]

/-- The nets of a circuit that was built are the new pins. -/
theorem nets_of_build (h : p.build catalog b = .ok (b', c)) :
    c.nets = List.range' b.size p.nets.length := by
  obtain ⟨-, cells, rfl, -⟩ := build_eq_ok_iff.mp h
  exact nets_circuit ..

/-- Every net of a circuit that was built is on the board. -/
theorem lt_size_of_build (h : p.build catalog b = .ok (b', c)) {q : PinId} (hq : q ∈ c.nets) :
    q < b'.size := by
  obtain ⟨hNets, -⟩ := build_eq_ok_iff.mp h
  obtain ⟨-, -, rfl⟩ := Board.placeNets_eq_ok_iff.mp hNets
  rw [nets_of_build h, List.mem_range'_1] at hq
  rw [Board.size_grow]
  exact hq.2

/-- No net of a circuit is listed twice: not in one of its three lists, nor in two of them. -/
theorem nets_nodup_of_build (h : p.build catalog b = .ok (b', c)) : c.nets.Nodup := by
  rw [nets_of_build h]
  exact List.nodup_range'

/-- No output or internal net is also an input. -/
theorem not_mem_inputs_of_build (h : p.build catalog b = .ok (b', c)) {q : PinId}
    (hq : q ∈ c.outputs ++ c.internals) : q ∉ c.inputs := by
  have hNodup := nets_nodup_of_build h
  rw [Circuit.nets, List.append_assoc] at hNodup
  intro hInput
  exact (List.nodup_append.mp hNodup).2.2 q hInput q hq rfl

/-- Every net of a circuit that was built is in range. -/
theorem inRange_of_build (h : p.build catalog b = .ok (b', c)) {q : PinId} (hq : q ∈ c.nets) :
    b'.InRange q := by
  obtain ⟨hNets, -⟩ := build_eq_ok_iff.mp h
  obtain ⟨-, -, rfl⟩ := Board.placeNets_eq_ok_iff.mp hNets
  rw [nets_of_build h, List.mem_range'_1] at hq
  exact Board.inRange_grow_of_le hq.1

/-- The cells of a circuit are on nets of the circuit. -/
theorem cell_pins_of_build (h : p.build catalog b = .ok (b', c)) {cell : Cell}
    (hCell : cell ∈ c.cells) {q : PinId} (hq : q ∈ cell.inputs ++ cell.outputs) : q ∈ c.nets := by
  rw [nets_of_build h, List.mem_range'_1]
  obtain ⟨-, cells, rfl, hCells⟩ := build_eq_ok_iff.mp h
  obtain ⟨it, -, hIt⟩ := exists_of_forall₂_ok hCells hCell
  obtain ⟨net, hNet⟩ := Placement.cell_pins hIt q hq
  exact netPin?_eq_some hNet

end Built

end Plan

end Breadboard
