import Breadboard.Proofs.Circuit.Wiring

/-!
# Breadboard — circuits as equations

A cell says what its outputs should hold: the words that its chip computes from its inputs, cut to
the widths of the outputs (`Cell.Holds`). A circuit is then a system of equations in its nets, and a
step is one pass over them, in order. When the cells are **in order** (`Circuit.Ordered`: every net
has one driver at most, and a cell reads what no cell drives or an earlier one does), one pass solves
the system, and the nets that no cell drives determine the solution:

* `Cell.holds_of_steps` — after the pass all equations hold;
* `Cell.eq_of_holds` — no other words on the driven nets make them hold;
* `Cell.steps_congr` — whether the pass goes through depends on the undriven nets alone;
* `ordered_step_solves` — all of this for a step of a circuit that was built, from any board that
  can be reached, whatever the driven nets held before.

The induction goes along the cells in the form `Cell.FeedForward`: no cell reads what it or a later
one drives. So when a cell has been stepped, its inputs and outputs are final.
-/

namespace Breadboard

namespace Cell

/-! ## Equations -/

/-- **The equation of a cell**: its chip gives a word for every output on the words that the inputs
hold, and every output holds its word, cut to the width there. -/
def Holds (c : Cell) (b : Board) : Prop :=
  ∃ slots, c.chip.evaluate (b.readAll c.inputs) (Slots.blank c.outputs.length) = .ok slots ∧
    ∀ (k : Nat) (q : PinId), c.outputs[k]? = some q →
      ∃ w, slots.word? k = some w ∧ b.read q = fit w.toInt32 (b.widthOf q)

theorem readAll_congr {b b' : Board} {ps : List PinId} (h : ∀ q ∈ ps, b'.read q = b.read q) :
    b'.readAll ps = b.readAll ps :=
  List.map_congr_left h

/-- An equation is about the pins of its cell only. -/
theorem Holds.congr {c : Cell} {b b' : Board} (h : c.Holds b)
    (hRead : ∀ q ∈ c.inputs ++ c.outputs, b'.read q = b.read q)
    (hSignal : ∀ q ∈ c.outputs, b'.signal? q = b.signal? q) : c.Holds b' := by
  obtain ⟨slots, hEval, hOut⟩ := h
  refine ⟨slots, ?_, ?_⟩
  · rw [readAll_congr fun q hq => hRead q (List.mem_append_left _ hq)]
    exact hEval
  · intro k q hq
    have hMem : q ∈ c.outputs := List.mem_of_getElem? hq
    obtain ⟨w, hw, hb⟩ := hOut k q hq
    refine ⟨w, hw, ?_⟩
    rw [hRead q (List.mem_append_right _ hMem), hb, Board.widthOf_congr (hSignal q hMem)]

/-- A step makes the equation of its cell hold, if the cell does not overwrite what it has read. -/
theorem holds_of_step {c : Cell} {b b' : Board} (h : c.step b = .ok b')
    (hNodup : c.outputs.Nodup) (hApart : ∀ q ∈ c.inputs, q ∉ c.outputs)
    (hSize : ∀ q ∈ c.outputs, q < b.size) : c.Holds b' := by
  have hInputs : b'.readAll c.inputs = b.readAll c.inputs :=
    readAll_congr fun q hq => read_of_step h (hApart q hq)
  obtain ⟨slots, hEval, hUnset, rfl⟩ := step_eq_ok_iff.mp h
  refine ⟨slots, by rw [hInputs, hEval], ?_⟩
  intro k q hq
  have hk : k < c.outputs.length := (List.getElem?_eq_some_iff.mp hq).1
  obtain ⟨w, hw⟩ := Slots.exists_word?_of_lt hUnset hk
  refine ⟨w, hw, ?_⟩
  -- the word in the slot is the one that was written, since no output is listed twice
  rw [Board.widthOf_writeAll]
  apply Board.read_writeAll_zip hNodup hq
  · rw [Slots.words_getElem? hUnset, hw]
  · exact hSize q (List.mem_of_getElem? hq)

/-- A cell steps wherever its inputs hold the words of a board on which its equation holds. -/
theorem step_of_holds {c : Cell} {b t : Board} (ht : c.Holds t)
    (hRead : ∀ q ∈ c.inputs, t.read q = b.read q) : ∃ b', c.step b = .ok b' := by
  obtain ⟨slots, hEval, hOut⟩ := ht
  rw [readAll_congr hRead] at hEval
  refine ⟨_, step_eq_ok_iff.mpr ⟨slots, hEval, Slots.firstUnset_eq_none fun k hk => ?_, rfl⟩⟩
  obtain ⟨w, hw, -⟩ := hOut k _ (List.getElem?_eq_getElem hk)
  exact ⟨w, hw⟩

/-- Two boards on which the equation of a cell holds, with the same words on its inputs, have the
same words on its outputs. -/
theorem Holds.read_eq {c : Cell} {b t : Board} (hb : c.Holds b) (ht : c.Holds t)
    (hRead : ∀ q ∈ c.inputs, t.read q = b.read q)
    (hSignal : ∀ q ∈ c.outputs, t.signal? q = b.signal? q) {q : PinId} (hq : q ∈ c.outputs) :
    t.read q = b.read q := by
  obtain ⟨slots, hEval, hOut⟩ := hb
  obtain ⟨slots', hEval', hOut'⟩ := ht
  -- the chip is given the same words on both boards, so the slots are the same
  rw [readAll_congr hRead, hEval] at hEval'
  obtain rfl : slots = slots' := Except.ok.inj hEval'
  obtain ⟨k, hk⟩ := List.mem_iff_getElem?.mp hq
  obtain ⟨w, hw, hbq⟩ := hOut k q hk
  obtain ⟨w', hw', htq⟩ := hOut' k q hk
  obtain rfl : w = w' := Option.some.inj (hw.symm.trans hw')
  rw [hbq, htq, Board.widthOf_congr (hSignal q hq)]

/-! ## Cells in order -/

/-- No net has two drivers, and no cell reads what it or a later cell drives. -/
def FeedForward : List Cell → Prop
  | [] => True
  | c :: cs =>
    (c.outputs.Nodup ∧ ∀ q ∈ c.outputs, q ∉ driven cs) ∧
      (∀ q ∈ c.inputs, q ∉ driven (c :: cs)) ∧ FeedForward cs

instance decidableFeedForward : (cs : List Cell) → Decidable (FeedForward cs)
  | [] => .isTrue trivial
  | _ :: cs =>
    have := decidableFeedForward cs
    inferInstanceAs (Decidable (_ ∧ _))

/-- Cells that feed forward drive no net twice. -/
theorem FeedForward.nodup {cs : List Cell} (h : FeedForward cs) : (driven cs).Nodup := by
  induction cs with
  | nil => exact List.nodup_nil
  | cons c cs ih =>
    obtain ⟨⟨hNodup, hLater⟩, -, hRest⟩ := h
    rw [driven_cons, List.nodup_append]
    refine ⟨hNodup, ih hRest, ?_⟩
    rintro q hq q' hq' rfl
    exact hLater q hq hq'

/-- The later ones of cells that feed forward do so by themselves. -/
theorem FeedForward.of_append {cs cs' : List Cell} (h : FeedForward (cs ++ cs')) :
    FeedForward cs' := by
  induction cs with
  | nil => exact h
  | cons c cs ih => exact ih h.2.2

/-- **One pass makes all equations hold.** -/
theorem holds_of_steps {cs : List Cell} {b b' : Board} (hForward : FeedForward cs)
    (h : steps cs b = .ok b') (hSize : ∀ q ∈ driven cs, q < b.size) :
    ∀ c ∈ cs, c.Holds b' := by
  induction cs generalizing b with
  | nil => simp
  | cons c cs ih =>
    obtain ⟨⟨hNodup, hLater⟩, hReads, hRest⟩ := hForward
    obtain ⟨b₁, hStep, hSteps⟩ := steps_cons_eq_ok_iff.mp h
    simp only [driven_cons, List.mem_append, not_or] at hReads hSize
    have hSize₁ : ∀ q ∈ driven cs, q < b₁.size := by
      intro q hq
      rw [size_of_step hStep]
      exact hSize q (.inr hq)
    intro d hd
    rcases List.mem_cons.mp hd with rfl | hd
    · -- what `d` has read and written is not touched by the cells after it
      have hHolds : d.Holds b₁ := holds_of_step hStep hNodup (fun q hq => (hReads q hq).1)
        fun q hq => hSize q (.inl hq)
      refine hHolds.congr (fun q hq => ?_) fun q _ => signal?_of_steps hSteps q
      apply read_of_steps hSteps
      rcases List.mem_append.mp hq with hq | hq
      · exact (hReads q hq).2
      · exact hLater q hq
    · exact ih hRest hSteps hSize₁ d hd

/-- **The equations have no other solution.** A board that has the words of `b` on the nets that no
cell drives, and on which all equations hold, has the words that the pass from `b` ends with. -/
theorem eq_of_holds {cs : List Cell} {b b' t : Board} {nets : List PinId}
    (hForward : FeedForward cs) (h : steps cs b = .ok b')
    (hSize : ∀ q ∈ driven cs, q < b.size)
    (hNets : ∀ c ∈ cs, ∀ q ∈ c.inputs ++ c.outputs, q ∈ nets)
    (hSignal : ∀ q ∈ nets, t.signal? q = b.signal? q)
    (hFree : ∀ q ∈ nets, q ∉ driven cs → t.read q = b.read q)
    (hHolds : ∀ c ∈ cs, c.Holds t) : ∀ q ∈ nets, t.read q = b'.read q := by
  induction cs generalizing b with
  | nil =>
    obtain rfl : b = b' := by simpa [steps] using h
    intro q hq
    exact hFree q hq (by simp)
  | cons c cs ih =>
    obtain ⟨⟨hNodup, hLater⟩, hReads, hRest⟩ := hForward
    obtain ⟨b₁, hStep, hSteps⟩ := steps_cons_eq_ok_iff.mp h
    have hPins := hNets c (List.mem_cons_self ..)
    simp only [driven_cons, List.mem_append, not_or] at hReads hSize hFree hPins
    have hSignal₁ : ∀ q ∈ nets, t.signal? q = b₁.signal? q := by
      intro q hq
      rw [signal?_of_step hStep, hSignal q hq]
    -- the inputs of `c` are driven by no cell, so `t` has the words there that `c` has read
    have hInputs : ∀ q ∈ c.inputs, t.read q = b₁.read q := by
      intro q hq
      rw [read_of_step hStep (hReads q hq).1]
      exact hFree q (hPins q (.inl hq)) (hReads q hq)
    have hHolds₁ : c.Holds b₁ := holds_of_step hStep hNodup (fun q hq => (hReads q hq).1)
      fun q hq => hSize q (.inl hq)
    refine ih hRest hSteps ?_ (fun d hd => hNets d (List.mem_cons_of_mem _ hd)) hSignal₁ ?_
      fun d hd => hHolds d (List.mem_cons_of_mem _ hd)
    · intro q hq
      rw [size_of_step hStep]
      exact hSize q (.inr hq)
    · -- behind `c` one more net is free: what `c` drives, where the equation leaves no choice
      intro q hq hLate
      by_cases hOut : q ∈ c.outputs
      · exact hHolds₁.read_eq (hHolds c (List.mem_cons_self ..)) hInputs
          (fun q' hq' => hSignal₁ q' (hPins q' (.inr hq'))) hOut
      · rw [read_of_step hStep hOut]
        exact hFree q hq ⟨hOut, hLate⟩

/-- **A pass goes through if the equations have a solution** that agrees with the board on the nets
that no cell drives. -/
theorem steps_of_holds {cs : List Cell} {b t : Board} {nets : List PinId}
    (hForward : FeedForward cs) (hSize : ∀ q ∈ driven cs, q < b.size)
    (hNets : ∀ c ∈ cs, ∀ q ∈ c.inputs ++ c.outputs, q ∈ nets)
    (hSignal : ∀ q ∈ nets, t.signal? q = b.signal? q)
    (hFree : ∀ q ∈ nets, q ∉ driven cs → t.read q = b.read q)
    (hHolds : ∀ c ∈ cs, c.Holds t) : ∃ b', steps cs b = .ok b' := by
  induction cs generalizing b with
  | nil => exact ⟨b, rfl⟩
  | cons c cs ih =>
    obtain ⟨⟨hNodup, hLater⟩, hReads, hRest⟩ := hForward
    obtain ⟨hHead, hHoldsRest⟩ := List.forall_mem_cons.mp hHolds
    obtain ⟨hPins, hNetsRest⟩ := List.forall_mem_cons.mp hNets
    simp only [driven_cons, List.mem_append, not_or] at hReads hSize hFree hPins
    have hInputs : ∀ q ∈ c.inputs, t.read q = b.read q := fun q hq =>
      hFree q (hPins q (.inl hq)) (hReads q hq)
    obtain ⟨b₁, hStep⟩ := step_of_holds hHead hInputs
    have hSignal₁ : ∀ q ∈ nets, t.signal? q = b₁.signal? q := by
      intro q hq
      rw [signal?_of_step hStep, hSignal q hq]
    -- after its step the cell solves its equation with the words of `t`
    have hHolds₁ : c.Holds b₁ := holds_of_step hStep hNodup (fun q hq => (hReads q hq).1)
      fun q hq => hSize q (.inl hq)
    have hInputs₁ : ∀ q ∈ c.inputs, t.read q = b₁.read q := by
      intro q hq
      rw [read_of_step hStep (hReads q hq).1]
      exact hInputs q hq
    have hFree₁ : ∀ q ∈ nets, q ∉ driven cs → t.read q = b₁.read q := by
      intro q hq hLate
      by_cases hOut : q ∈ c.outputs
      · exact hHolds₁.read_eq hHead hInputs₁ (fun q' hq' => hSignal₁ q' (hPins q' (.inr hq'))) hOut
      · rw [read_of_step hStep hOut]
        exact hFree q hq ⟨hOut, hLate⟩
    have hSize₁ : ∀ q ∈ driven cs, q < b₁.size := by
      intro q hq
      rw [size_of_step hStep]
      exact hSize q (.inr hq)
    obtain ⟨b', hSteps⟩ := ih hRest hSize₁ hNetsRest hSignal₁ hFree₁ hHoldsRest
    exact ⟨b', steps_cons_eq_ok_iff.mpr ⟨b₁, hStep, hSteps⟩⟩

/-- **Whether a pass goes through** depends on the nets that no cell drives. -/
theorem steps_congr {cs : List Cell} {b b' t : Board} {nets : List PinId}
    (hForward : FeedForward cs) (h : steps cs b = .ok b')
    (hSize : ∀ q ∈ driven cs, q < b.size)
    (hNets : ∀ c ∈ cs, ∀ q ∈ c.inputs ++ c.outputs, q ∈ nets)
    (hSignal : ∀ q ∈ nets, t.signal? q = b.signal? q)
    (hFree : ∀ q ∈ nets, q ∉ driven cs → t.read q = b.read q) : ∃ t', steps cs t = .ok t' := by
  -- the board that the pass from `b` leaves is a solution from `t` as well
  refine steps_of_holds (t := b') hForward ?_ hNets ?_ ?_ (holds_of_steps hForward h hSize)
  · intro q hq
    obtain ⟨c, hc, hOut⟩ := mem_driven.mp hq
    rw [← Board.signal?_isSome_iff, hSignal q (hNets c hc q (List.mem_append_right _ hOut)),
      Board.signal?_isSome_iff]
    exact hSize q hq
  · intro q hq
    rw [signal?_of_steps h, hSignal q hq]
  · intro q hq hUndriven
    rw [read_of_steps h hUndriven, hFree q hq hUndriven]

end Cell

/-! ## Circuits in order -/

namespace Circuit

/-- The cells of a circuit are **in order**: no net is connected to two outputs of cells, no input
of the circuit is connected to any, and every net that a cell reads is driven by a cell before it
or by none. -/
structure Ordered (c : Circuit) : Prop where
  single : (Cell.driven c.cells).Nodup
  free : ∀ q ∈ Cell.driven c.cells, q ∉ c.inputs
  earlier : ∀ before cell later, c.cells = before ++ cell :: later →
    ∀ q ∈ cell.inputs, q ∈ Cell.driven c.cells → q ∈ Cell.driven before

/-- `t` **solves** the circuit from `s`: it agrees with `s` on the nets that no cell drives, and the
equations of all cells hold on it. -/
structure Solves (c : Circuit) (s t : Board) : Prop where
  free : ∀ q ∈ c.nets, q ∉ Cell.driven c.cells → t.read q = s.read q
  holds : ∀ cell ∈ c.cells, cell.Holds t

/-- Cells in order feed forward: what a cell reads and a later one drives would have two drivers. -/
theorem feedForward_of_split {cells : List Cell} (hSingle : (Cell.driven cells).Nodup)
    (hEarlier : ∀ before cell later, cells = before ++ cell :: later →
      ∀ q ∈ cell.inputs, q ∈ Cell.driven cells → q ∈ Cell.driven before) :
    ∀ before later, cells = before ++ later → Cell.FeedForward later := by
  intro before later
  induction later generalizing before with
  | nil => intro _; trivial
  | cons c cs ih =>
    intro hSplit
    have hNodup := hSingle
    rw [hSplit, Cell.driven_append, Cell.driven_cons] at hNodup
    obtain ⟨-, hBack, hApart⟩ := List.nodup_append.mp hNodup
    obtain ⟨hOut, -, hLater⟩ := List.nodup_append.mp hBack
    refine ⟨⟨hOut, fun q hq hq' => hLater q hq q hq' rfl⟩, ?_, ?_⟩
    · -- what it reads and what is driven from here on has a driver before, so two of them
      intro q hq hDriven
      have hBefore : q ∈ Cell.driven before := by
        apply hEarlier before c cs hSplit q hq
        rw [hSplit, Cell.driven_append]
        exact List.mem_append_right _ hDriven
      exact hApart q hBefore q hDriven rfl
    · exact ih (before ++ [c]) (by rw [hSplit]; simp)

/-- The cells of a circuit in order feed forward. -/
theorem Ordered.feedForward {c : Circuit} (h : c.Ordered) : Cell.FeedForward c.cells :=
  feedForward_of_split h.single h.earlier [] c.cells rfl

/-- Whether cells are in order can be seen by going through them once. -/
theorem ordered_of_feedForward {c : Circuit} (hForward : Cell.FeedForward c.cells)
    (hFree : ∀ q ∈ Cell.driven c.cells, q ∉ c.inputs) : c.Ordered := by
  refine ⟨hForward.nodup, hFree, ?_⟩
  intro before cell later hSplit q hq hDriven
  rw [hSplit] at hForward hDriven
  rw [Cell.driven_append, List.mem_append] at hDriven
  exact hDriven.resolve_right (hForward.of_append.2.1 q hq)

section Built

variable {p : Plan} {catalog : Catalog} {b₀ b₁ s t : Board} {c : Circuit}

/-- The nets of a circuit have the same names and widths on all boards ahead. -/
theorem signal?_of_reaches (hBuild : p.build catalog b₀ = .ok (b₁, c)) (hs : b₁.Reaches s)
    (ht : b₁.Reaches t) : ∀ q ∈ c.nets, t.signal? q = s.signal? q := by
  intro q hq
  have hSize := Plan.lt_size_of_build hBuild hq
  rw [ht.signal?_of_lt hSize, hs.signal?_of_lt hSize]

/-- What the cells of a circuit drive is on every board ahead. -/
theorem driven_lt_size (hBuild : p.build catalog b₀ = .ok (b₁, c)) (hs : b₁.Reaches s) :
    ∀ q ∈ Cell.driven c.cells, q < s.size := by
  intro q hq
  obtain ⟨cell, hCell, hOut⟩ := Cell.mem_driven.mp hq
  have hNet := Plan.cell_pins_of_build hBuild hCell (List.mem_append_right _ hOut)
  rw [← Board.signal?_isSome_iff, hs.signal?_of_lt (Plan.lt_size_of_build hBuild hNet),
    Board.signal?_isSome_iff]
  exact Plan.lt_size_of_build hBuild hNet

/-- No hidden state: two boards that agree on the undriven nets step alike. -/
theorem stepped_congr (hBuild : p.build catalog b₀ = .ok (b₁, c)) (hOrdered : c.Ordered)
    (hs : b₁.Reaches s) (ht : b₁.Reaches t) (hOk : (c.stepped s).outcome = .ok ())
    (hFree : ∀ q ∈ c.nets, q ∉ Cell.driven c.cells → t.read q = s.read q) :
    (c.stepped t).outcome = .ok () ∧
      ∀ q ∈ c.nets, (c.stepped t).board.read q = (c.stepped s).board.read q := by
  have hSteps := stepped_eq_ok_iff.mp ⟨hOk, rfl⟩
  have hPins : ∀ cell ∈ c.cells, ∀ q ∈ cell.inputs ++ cell.outputs, q ∈ c.nets :=
    fun _ hCell _ hq => Plan.cell_pins_of_build hBuild hCell hq
  obtain ⟨t', hStepsT⟩ := Cell.steps_congr hOrdered.feedForward hSteps
    (driven_lt_size hBuild hs) hPins (signal?_of_reaches hBuild hs ht) hFree
  obtain ⟨hOkT, rfl⟩ := stepped_eq_ok_iff.mpr hStepsT
  refine ⟨hOkT, ?_⟩
  -- the board that the step from `t` leaves solves the equations from `s`
  apply Cell.eq_of_holds hOrdered.feedForward hSteps (driven_lt_size hBuild hs) hPins
  · intro q hq
    rw [Cell.signal?_of_steps hStepsT]
    exact signal?_of_reaches hBuild hs ht q hq
  · intro q hq hUndriven
    rw [Cell.read_of_steps hStepsT hUndriven]
    exact hFree q hq hUndriven
  · exact Cell.holds_of_steps hOrdered.feedForward hStepsT (driven_lt_size hBuild ht)

/--
**A circuit in order solves its equations.** Let a step of a built circuit whose cells are in order
go through, from any board `s` that can be reached. Then no pin has changed that no cell drives, and
the board solves the circuit from `s`. Every other board that does so has the same words on the nets.
Hence the step goes through from every reachable board that agrees with `s` on the undriven nets and
ends with the same words, and a second step changes nothing at all.
-/
theorem ordered_step_solves (hBuild : p.build catalog b₀ = .ok (b₁, c)) (hOrdered : c.Ordered)
    (hReach : b₁.Reaches s) (hOk : (c.stepped s).outcome = .ok ()) :
    (∀ q, q ∉ Cell.driven c.cells → (c.stepped s).board.read q = s.read q) ∧
    c.Solves s (c.stepped s).board ∧
    (∀ t : Board, (∀ q ∈ c.nets, t.signal? q = s.signal? q) → c.Solves s t →
      ∀ q ∈ c.nets, t.read q = (c.stepped s).board.read q) ∧
    (∀ t : Board, b₁.Reaches t →
      (∀ q ∈ c.nets, q ∉ Cell.driven c.cells → t.read q = s.read q) →
      (c.stepped t).outcome = .ok () ∧
        ∀ q ∈ c.nets, (c.stepped t).board.read q = (c.stepped s).board.read q) ∧
    (c.stepped (c.stepped s).board).outcome = .ok () ∧
    (c.stepped (c.stepped s).board).board = (c.stepped s).board := by
  have hSteps := stepped_eq_ok_iff.mp ⟨hOk, rfl⟩
  have hUndriven : ∀ q, q ∉ Cell.driven c.cells → (c.stepped s).board.read q = s.read q :=
    fun q hq => Cell.read_of_steps hSteps hq
  have hSolves : c.Solves s (c.stepped s).board :=
    ⟨fun q _ hq => hUndriven q hq,
      Cell.holds_of_steps hOrdered.feedForward hSteps (driven_lt_size hBuild hReach)⟩
  have hAgain := stepped_congr hBuild hOrdered hReach (hReach.change (.step (.circuit c))) hOk
    fun q _ hq => hUndriven q hq
  refine ⟨hUndriven, hSolves, ?_, ?_, hAgain.1, ?_⟩
  · intro t hSignal hSolvesT
    exact Cell.eq_of_holds hOrdered.feedForward hSteps (driven_lt_size hBuild hReach)
      (fun _ hCell _ hq => Plan.cell_pins_of_build hBuild hCell hq) hSignal hSolvesT.free
      hSolvesT.holds
  · intro t hReachT hFree
    exact stepped_congr hBuild hOrdered hReach hReachT hOk hFree
  · -- the nets are as after the first step, and all other pins as always
    have hStepsAgain := stepped_eq_ok_iff.mp ⟨hAgain.1, rfl⟩
    refine Board.ext_read (Cell.signal?_of_steps hStepsAgain) (fun q => ?_)
    by_cases hNet : q ∈ c.nets
    · exact hAgain.2 q hNet
    · apply Cell.read_of_steps hStepsAgain
      intro hDriven
      obtain ⟨cell, hCell, hOut⟩ := Cell.mem_driven.mp hDriven
      exact hNet (Plan.cell_pins_of_build hBuild hCell (List.mem_append_right _ hOut))

end Built

/-- Nand and inverter make a conjunction. -/
def conjunction : Plan :=
  { name := "And", inputs := [.bit "a", .bit "b"], outputs := [.bit "out"]
    internals := [.bit "n"]
    parts := [⟨"Nand", [("a", "a"), ("b", "b"), ("out", "n")]⟩,
      ⟨"Not", [("in", "n"), ("out", "out")]⟩] }

/-- With both inputs set and a stale word on the internal net, the conjunction comes out set, and
stays so. -/
theorem ordered_step_solves_conjunction :
    ∃ b₁ c s, conjunction.build .standard .empty = .ok (b₁, c) ∧ c.Ordered ∧ b₁.Reaches s ∧
      (c.stepped s).outcome = .ok () ∧ s.readAll c.nets = [1, 1, 0, 1] ∧
      (c.stepped s).board.readAll c.nets = [1, 1, 1, 0] ∧
      (c.stepped (c.stepped s).board).board = (c.stepped s).board := by
  have hBuild : conjunction.build .standard .empty = .ok (_, _) := rfl
  have hOrdered : Ordered (conjunction.circuit 0
      [⟨.nand, [0, 1], [3]⟩, ⟨.not, [3], [2]⟩]) :=
    ordered_of_feedForward (by decide) (by decide)
  have hReach := (((Board.Reaches.refl (Board.empty.grow conjunction.nets)).change
    (.write 0 1)).change (.write 1 1)).change (.write 3 1)
  obtain ⟨-, -, -, -, -, hAgain⟩ := ordered_step_solves hBuild hOrdered hReach rfl
  exact ⟨_, _, _, hBuild, hOrdered, hReach, rfl, rfl, rfl, hAgain⟩

end Circuit

end Breadboard
