import Breadboard.Proofs.Chip
import Breadboard.Proofs.Circuit.Order
import Mathlib.Data.Set.Finite.List
import Mathlib.Order.WellFoundedSet

/-!
# Breadboard — circuits in the wrong order

When the parts of a circuit were added in an order that does not respect which part reads from which,
one step does not solve the equations: a cell may read a word that is still that of an earlier step.
But as long as no cell depends on itself, steps repeated often enough do solve them, and as many steps
as there are parts are enough:

* `Cell.exists_feedForward` — cells without a cycle can be brought in order;
* `Cell.reads_of_pass` — **one pass**, in whatever order: nets that are right stay right, and the
  outputs of a cell that reads only such nets become right;
* `Circuit.read_after` — so after `k` passes all nets are right that depend on none but the first `k`
  cells of an order that respects the dependencies;
* `acyclic_circuit_settles` — the result for circuits that were built;
* `idle_circuit_never_settles` — why every chip has to give a word for every output.

A net is **right** when it holds the word that it has in the solution of all equations.
-/

namespace Breadboard

namespace Cell

-- ---------------------------------------------------------------------------
-- Dependencies
-- ---------------------------------------------------------------------------

/-- `d` reads a net that `c` drives, both being among some cells. -/
def Feeds (cells : List Cell) (c d : Cell) : Prop :=
  c ∈ cells ∧ d ∈ cells ∧ ∃ q ∈ c.outputs, q ∈ d.inputs

/-- No cell depends on itself, directly or through other cells. -/
def Acyclic (cells : List Cell) : Prop :=
  ∀ c, ¬ Relation.TransGen (Feeds cells) c c

/-- Fewer cells make no cycle. -/
theorem Acyclic.of_subset {cells cells' : List Cell} (h : Acyclic cells) (hSub : cells' ⊆ cells) :
    Acyclic cells' := by
  intro c hCycle
  refine h c (Relation.TransGen.mono ?_ c c hCycle)
  rintro d e ⟨hd, he, hNet⟩
  exact ⟨hSub hd, hSub he, hNet⟩

/-- Cells that can be numbered upwards along the dependencies have no cycle. -/
theorem acyclic_of_rank {cells : List Cell} (rank : Cell → Nat)
    (h : ∀ c ∈ cells, ∀ d ∈ cells, (∃ q ∈ c.outputs, q ∈ d.inputs) → rank c < rank d) :
    Acyclic cells := by
  have hUp : ∀ c d, Relation.TransGen (Feeds cells) c d → rank c < rank d := by
    intro c d hPath
    induction hPath with
    | single hFeeds => exact h _ hFeeds.1 _ hFeeds.2.1 hFeeds.2.2
    | tail _ hFeeds ih => exact Nat.lt_trans ih (h _ hFeeds.1 _ hFeeds.2.1 hFeeds.2.2)
  intro c hCycle
  exact Nat.lt_irrefl _ (hUp c c hCycle)

/-- Among cells without a cycle, one reads from none of them. -/
theorem Acyclic.exists_source {cells : List Cell} (h : Acyclic cells) (hne : cells ≠ []) :
    ∃ c ∈ cells, ∀ q ∈ c.inputs, q ∉ driven cells := by
  -- a finite set is well-founded under any strict order, here that of depending on
  have : Std.Irrefl (Relation.TransGen (Feeds cells)) := ⟨h⟩
  have : IsStrictOrder Cell (Relation.TransGen (Feeds cells)) := {}
  have hWell : {c | c ∈ cells}.WellFoundedOn (Relation.TransGen (Feeds cells)) :=
    (List.finite_toSet cells).wellFoundedOn
  obtain ⟨first, hFirst⟩ := List.exists_mem_of_ne_nil cells hne
  obtain ⟨⟨c, hc⟩, -, hMin⟩ := hWell.has_min Set.univ ⟨⟨first, hFirst⟩, trivial⟩
  refine ⟨c, hc, fun q hIn hDriven => ?_⟩
  obtain ⟨d, hd, hOut⟩ := mem_driven.mp hDriven
  exact hMin ⟨d, hd⟩ trivial (.single ⟨hd, hc, q, hOut, hIn⟩)

/-- **Cells without a cycle can be brought in order.** -/
theorem exists_feedForward {cells : List Cell} (hSingle : (driven cells).Nodup)
    (hAcyclic : Acyclic cells) : ∃ ordered, cells.Perm ordered ∧ FeedForward ordered := by
  -- on the number of cells: one that reads from none of them comes first
  induction hLength : cells.length generalizing cells with
  | zero =>
    obtain rfl := List.length_eq_zero_iff.mp hLength
    exact ⟨[], .refl _, trivial⟩
  | succ k ih =>
    have hne : cells ≠ [] := List.ne_nil_of_length_eq_add_one hLength
    obtain ⟨c, hc, hSource⟩ := hAcyclic.exists_source hne
    obtain ⟨before, after, rfl⟩ := List.append_of_mem hc
    have hFirst : (before ++ c :: after).Perm (c :: (before ++ after)) := List.perm_middle
    have hNodup : (driven (c :: (before ++ after))).Nodup :=
      (hFirst.flatMap_right Cell.outputs).nodup_iff.mp hSingle
    rw [driven_cons, List.nodup_append] at hNodup
    obtain ⟨hOwn, hOthers, hApart⟩ := hNodup
    have hRest : Acyclic (before ++ after) :=
      hAcyclic.of_subset fun d hd => hFirst.mem_iff.mpr (List.mem_cons_of_mem _ hd)
    have hFewer : (before ++ after).length = k := by
      rw [hFirst.length_eq, List.length_cons] at hLength
      omega
    obtain ⟨ordered, hPerm, hForward⟩ := ih hOthers hRest hFewer
    refine ⟨c :: ordered, hFirst.trans (hPerm.cons c), ⟨hOwn, fun q hq hLater => ?_⟩, ?_, hForward⟩
    · exact hApart q hq q ((mem_driven_of_perm hPerm).mpr hLater) rfl
    · intro q hq hDriven
      exact hSource q hq ((mem_driven_of_perm (hFirst.trans (hPerm.cons c))).mpr hDriven)

/-- In cells that feed forward, none reads what comes behind it. -/
theorem FeedForward.inputs_not_driven {cs ds : List Cell} (h : FeedForward (cs ++ ds)) {c : Cell}
    (hc : c ∈ cs) : ∀ q ∈ c.inputs, q ∉ driven ds := by
  induction cs with
  | nil => simp at hc
  | cons d cs ih =>
    rcases List.mem_cons.mp hc with rfl | hc
    · intro q hq hDriven
      have hLater : q ∉ driven (c :: (cs ++ ds)) := h.2.1 q hq
      rw [driven_cons, driven_append] at hLater
      exact hLater (List.mem_append_right _ (List.mem_append_right _ hDriven))
    · exact ih h.2.2 hc

-- ---------------------------------------------------------------------------
-- One pass
-- ---------------------------------------------------------------------------

/-- **One pass over cells in any order.** Let the equations of all cells hold on `t`, and let `b` have the
words of `t` on the nets `right`. If every cell either reads such nets only or drives none of them, the
pass keeps these nets right, and the cells of the first kind make their outputs right. -/
theorem reads_of_pass {cs : List Cell} {b b' t : Board} {right : PinId → Prop}
    (hSingle : (driven cs).Nodup) (hApart : ∀ c ∈ cs, ∀ q ∈ c.inputs, q ∉ c.outputs)
    (hSize : ∀ q ∈ driven cs, q < b.size) (hSignal : ∀ q, b.signal? q = t.signal? q)
    (hHolds : ∀ c ∈ cs, c.Holds t) (h : steps cs b = .ok b')
    (hRight : ∀ q, right q → b.read q = t.read q)
    (hKind : ∀ c ∈ cs, (∀ q ∈ c.inputs, right q) ∨ ∀ q ∈ c.outputs, ¬ right q) :
    (∀ q, right q → b'.read q = t.read q) ∧
      ∀ c ∈ cs, (∀ q ∈ c.inputs, right q) → ∀ q ∈ c.outputs, b'.read q = t.read q := by
  induction cs generalizing b with
  | nil =>
    obtain rfl : b = b' := by simpa [steps] using h
    exact ⟨hRight, by simp⟩
  | cons c cs ih =>
    obtain ⟨b₁, hStep, hSteps⟩ := steps_cons_eq_ok_iff.mp h
    rw [driven_cons, List.nodup_append] at hSingle
    obtain ⟨hOwn, hSingleRest, hOthers⟩ := hSingle
    obtain ⟨hApartHere, hApartRest⟩ := List.forall_mem_cons.mp hApart
    obtain ⟨hHoldsHere, hHoldsRest⟩ := List.forall_mem_cons.mp hHolds
    obtain ⟨hKindHere, hKindRest⟩ := List.forall_mem_cons.mp hKind
    simp only [driven_cons, List.mem_append] at hSize
    have hSignal₁ : ∀ q, b₁.signal? q = t.signal? q := fun q => by
      rw [signal?_of_step hStep, hSignal]
    -- a cell that reads right words writes right words
    have hOutputs : (∀ q ∈ c.inputs, right q) → ∀ q ∈ c.outputs, b₁.read q = t.read q := by
      intro hInputs q hq
      have hHolds₁ : c.Holds b₁ :=
        holds_of_step hStep hOwn hApartHere fun q hq => hSize q (.inl hq)
      refine hHoldsHere.read_eq hHolds₁ (fun q hq => ?_) (fun q _ => hSignal₁ q) hq
      rw [read_of_step hStep (hApartHere q hq)]
      exact hRight q (hInputs q hq)
    have hRight₁ : ∀ q, right q → b₁.read q = t.read q := by
      intro q hq
      by_cases hOut : q ∈ c.outputs
      · rcases hKindHere with hInputs | hNone
        · exact hOutputs hInputs q hOut
        · exact absurd hq (hNone q hOut)
      · rw [read_of_step hStep hOut]
        exact hRight q hq
    have hSize₁ : ∀ q ∈ driven cs, q < b₁.size := by
      intro q hq
      rw [size_of_step hStep]
      exact hSize q (.inr hq)
    obtain ⟨hKept, hMade⟩ :=
      ih hSingleRest hApartRest hSize₁ hSignal₁ hHoldsRest hSteps hRight₁ hKindRest
    refine ⟨hKept, ?_⟩
    intro d hd hInputs q hq
    rcases List.mem_cons.mp hd with rfl | hd
    · -- the cells behind it drive other nets
      rw [read_of_steps hSteps fun hLater => hOthers q hq q hLater rfl]
      exact hOutputs hInputs q hq
    · exact hMade d hd hInputs q hq

-- ---------------------------------------------------------------------------
-- Chips that never fail
-- ---------------------------------------------------------------------------

/-- A complete cell whose chip never fails steps on every board. -/
theorem exists_step {c : Cell} (hComplete : c.Complete) (hChip : c.chip.NeverFails) (b : Board) :
    ∃ b', c.step b = .ok b' := by
  obtain ⟨hInputs, hOutputs⟩ := hComplete
  have hLength : (b.readAll c.inputs).length = c.chip.inputs.length := by
    rw [Board.readAll, List.length_map, hInputs]
  obtain ⟨slots, hEval, hUnset⟩ := hChip (b.readAll c.inputs) hLength
  rw [step_eq_of_length hOutputs, hEval]
  exact ⟨b.writeAll (c.outputs.zip slots.words), by simp [bind, Except.bind, hUnset]⟩

/-- A pass over such cells goes through on every board. -/
theorem exists_steps {cs : List Cell} (hComplete : ∀ c ∈ cs, c.Complete)
    (hChips : ∀ c ∈ cs, c.chip.NeverFails) (b : Board) : ∃ b', steps cs b = .ok b' := by
  induction cs generalizing b with
  | nil => exact ⟨b, rfl⟩
  | cons c cs ih =>
    rw [List.forall_mem_cons] at hComplete hChips
    obtain ⟨b₁, hStep⟩ := exists_step hComplete.1 hChips.1 b
    obtain ⟨b', hSteps⟩ := ih hComplete.2 hChips.2 b₁
    exact ⟨b', steps_cons_eq_ok_iff.mpr ⟨b₁, hStep, hSteps⟩⟩

end Cell

-- ---------------------------------------------------------------------------
-- Repeated steps
-- ---------------------------------------------------------------------------

namespace Circuit

/-- The board after so many steps. -/
def after (c : Circuit) (k : Nat) (b : Board) : Board :=
  (fun b => (c.stepped b).board)^[k] b

/-- One step more, from where the others led. -/
theorem after_succ (c : Circuit) (k : Nat) (b : Board) :
    c.after (k + 1) b = (c.stepped (c.after k b)).board :=
  Function.iterate_succ_apply' ..

/-- Steps change neither names nor widths. -/
theorem signal?_after (c : Circuit) (k : Nat) (s : Board) (q : PinId) :
    (c.after k s).signal? q = s.signal? q := by
  induction k with
  | zero => rfl
  | succ k ih =>
    obtain ⟨ws, hws⟩ := c.stepped_eq_writeAll (c.after k s)
    rw [after_succ, hws, Board.signal?_writeAll, ih]

/-- `ordered` is an order of the cells of `c` that respects the dependencies, and `t` is what the cells
leave when they are stepped in that order from `s`. -/
structure Arranged (c : Circuit) (ordered : List Cell) (s t : Board) : Prop where
  perm : c.cells.Perm ordered
  forward : Cell.FeedForward ordered
  driven_lt : ∀ q ∈ Cell.driven ordered, q < s.size
  steps : Cell.steps ordered s = .ok t

namespace Arranged

variable {c : Circuit} {ordered : List Cell} {s t : Board}

/-- No net has two drivers, in the order of the circuit either. -/
theorem single (h : c.Arranged ordered s t) : (Cell.driven c.cells).Nodup :=
  (h.perm.flatMap_right Cell.outputs).nodup_iff.mpr h.forward.nodup

/-- No cell reads what it drives itself. -/
theorem apart (h : c.Arranged ordered s t) :
    ∀ cell ∈ c.cells, ∀ q ∈ cell.inputs, q ∉ cell.outputs := by
  intro cell hCell q hIn hOut
  obtain ⟨before, behind, hAt⟩ := List.append_of_mem (h.perm.mem_iff.mp hCell)
  have hForward := h.forward
  rw [hAt] at hForward
  exact hForward.of_append.2.1 q hIn (List.mem_append_left _ hOut)

/-- The board `t` solves the equations of all cells. -/
theorem holds (h : c.Arranged ordered s t) : ∀ cell ∈ c.cells, cell.Holds t := fun cell hCell =>
  Cell.holds_of_steps h.forward h.steps h.driven_lt cell (h.perm.mem_iff.mp hCell)

/-- **One pass gets one cell further.** If the nets are as in `t` that cells in the back of the good order
do not drive, then after a pass the nets that the first of these drives are so too. -/
theorem read_of_pass (h : c.Arranged ordered s t) {early late : List Cell}
    (hSplit : ordered = early ++ late) {b b' : Board} (hSignal : ∀ q, b.signal? q = s.signal? q)
    (hSteps : Cell.steps c.cells b = .ok b')
    (hRight : ∀ q, q ∉ Cell.driven late → b.read q = t.read q) :
    ∀ q, q ∉ Cell.driven late.tail → b'.read q = t.read q := by
  have hForward := h.forward
  rw [hSplit] at hForward
  -- cells in front read right nets only, cells in the back drive no right net
  have hKind : ∀ cell ∈ c.cells, (∀ q ∈ cell.inputs, q ∉ Cell.driven late) ∨
      ∀ q ∈ cell.outputs, ¬ q ∉ Cell.driven late := by
    intro cell hCell
    have hMem := h.perm.mem_iff.mp hCell
    rw [hSplit, List.mem_append] at hMem
    rcases hMem with hEarly | hLate
    · exact .inl (hForward.inputs_not_driven hEarly)
    · exact .inr fun q hq hNot => hNot (Cell.mem_driven.mpr ⟨cell, hLate, hq⟩)
  have hSize : ∀ q ∈ Cell.driven c.cells, q < b.size := by
    intro q hq
    rw [← Board.signal?_isSome_iff, hSignal, Board.signal?_isSome_iff]
    exact h.driven_lt q ((Cell.mem_driven_of_perm h.perm).mp hq)
  have hSignal' : ∀ q, b.signal? q = t.signal? q := fun q => by
    rw [hSignal, Cell.signal?_of_steps h.steps]
  obtain ⟨hKept, hMade⟩ :=
    Cell.reads_of_pass h.single h.apart hSize hSignal' h.holds hSteps hRight hKind
  cases late with
  | nil => exact hKept
  | cons next late =>
    -- the first cell in the back reads right nets only as well
    have hNext : next ∈ c.cells := by
      rw [h.perm.mem_iff, hSplit]
      exact List.mem_append_right _ (List.mem_cons_self ..)
    intro q hq
    by_cases hOut : q ∈ next.outputs
    · exact hMade next hNext hForward.of_append.2.1 q hOut
    · refine hKept q ?_
      rw [Cell.driven_cons, List.mem_append, not_or]
      exact ⟨hOut, hq⟩

/-- **What is right after `k` passes**: all nets but those that cells beyond the first `k` of the good
order drive. -/
theorem read_after (h : c.Arranged ordered s t)
    (hOk : ∀ b, ∃ b', Cell.steps c.cells b = .ok b') (k : Nat) :
    ∀ q, q ∉ Cell.driven (ordered.drop k) → (c.after k s).read q = t.read q := by
  induction k with
  | zero =>
    intro q hq
    exact (Cell.read_of_steps h.steps hq).symm
  | succ k ih =>
    obtain ⟨b', hSteps⟩ := hOk (c.after k s)
    rw [after_succ, (stepped_eq_ok_iff.mpr hSteps).2, ← List.tail_drop]
    exact h.read_of_pass (List.take_append_drop k ordered).symm (signal?_after c k s) hSteps ih

/-- After as many passes as there are cells, or more, the board is `t`. -/
theorem after_eq (h : c.Arranged ordered s t) (hOk : ∀ b, ∃ b', Cell.steps c.cells b = .ok b')
    {k : Nat} (hk : c.cells.length ≤ k) : c.after k s = t := by
  refine Board.ext_read (fun q => ?_) (fun q => ?_)
  · rw [signal?_after, Cell.signal?_of_steps h.steps]
  · apply h.read_after hOk k
    rw [List.drop_eq_nil_of_le (h.perm.length_eq ▸ hk)]
    exact List.not_mem_nil

end Arranged

end Circuit

-- ---------------------------------------------------------------------------
-- Circuits that were built
-- ---------------------------------------------------------------------------

/-- A plan with its parts in the order of given cells makes these cells. -/
theorem Plan.exists_parts_of_perm {p : Plan} {catalog : Catalog} {b₀ b₁ : Board} {c : Circuit}
    (hBuild : p.build catalog b₀ = .ok (b₁, c)) {ordered : List Cell}
    (hPerm : c.cells.Perm ordered) :
    ∃ parts, p.parts.Perm parts ∧
      { p with parts := parts }.build catalog b₀ = .ok (b₁, { c with cells := ordered }) := by
  obtain ⟨hNets, cells, rfl, hCells⟩ := Plan.build_eq_ok_iff.mp hBuild
  obtain ⟨parts, hParts, hPermParts⟩ := List.perm_comp_forall₂ hPerm.symm hCells.flip
  exact ⟨parts, hPermParts.symm, Plan.build_eq_ok_iff.mpr ⟨hNets, ordered, rfl, hParts.flip⟩⟩

namespace Circuit

/--
**Circuits without a cycle settle, whatever the order of their parts.** The standard chips never fail.
Let a circuit be built from chips that never fail, with no net connected to two outputs of cells, no
input of the circuit connected to any, and no cell that depends on itself. From any board `s` that can
be reached,

* every step goes through;
* after as many steps as there are parts the board solves the circuit from `s`: the nets that no cell
  drives are as before, and the equations of all cells hold;
* no step after that changes anything on the board;
* the parts can be put in an order that respects the dependencies;
* and from the same words, one step of the circuit with its parts in any such order, on whatever board,
  goes through and ends with the same words.
-/
theorem acyclic_circuit_settles :
    (∀ name chip, Catalog.standard.create name = .ok chip → chip.NeverFails) ∧
    ∀ {p : Plan} {catalog : Catalog} {b₀ b₁ s : Board} {c : Circuit},
      p.build catalog b₀ = .ok (b₁, c) →
      (∀ cell ∈ c.cells, cell.chip.NeverFails) →
      (Cell.driven c.cells).Nodup → (∀ q ∈ Cell.driven c.cells, q ∉ c.inputs) →
      Cell.Acyclic c.cells → b₁.Reaches s →
      (∀ k, (c.stepped (c.after k s)).outcome = .ok ()) ∧
      c.Solves s (c.after p.parts.length s) ∧
      (∀ k, p.parts.length ≤ k → c.after k s = c.after p.parts.length s) ∧
      (∃ parts c', p.parts.Perm parts ∧
        { p with parts := parts }.build catalog b₀ = .ok (b₁, c') ∧ c'.Ordered) ∧
      ∀ {parts : List Placement} {b₂ b₂' s' : Board} {c' : Circuit},
        p.parts.Perm parts → { p with parts := parts }.build catalog b₂ = .ok (b₂', c') →
        c'.Ordered → b₂'.Reaches s' → s.readAll c.nets = s'.readAll c'.nets →
        (c'.stepped s').outcome = .ok () ∧
          (c'.stepped s').board.readAll c'.nets = (c.after p.parts.length s).readAll c.nets := by
  refine ⟨fun _ _ => Catalog.neverFails_of_create, ?_⟩
  intro p catalog b₀ b₁ s c hBuild hChips hSingle hFree hAcyclic hReach
  have hComplete := Plan.complete_of_build hBuild
  obtain ⟨ordered, hPerm, hForward⟩ := Cell.exists_feedForward hSingle hAcyclic
  -- the good order, as a circuit of its own on the same nets
  obtain ⟨parts, hParts, hBuildOrdered⟩ := Plan.exists_parts_of_perm hBuild hPerm
  have hLength : c.cells.length = p.parts.length := by
    obtain ⟨-, cells, rfl, hCells⟩ := Plan.build_eq_ok_iff.mp hBuild
    exact hCells.length_eq.symm
  have hOrdered : Ordered { c with cells := ordered } :=
    ordered_of_feedForward hForward fun q hq => hFree q ((Cell.mem_driven_of_perm hPerm).mpr hq)
  have hOk : ∀ b, ∃ b', Cell.steps c.cells b = .ok b' := Cell.exists_steps hComplete hChips
  obtain ⟨t, hSteps⟩ := Cell.exists_steps (fun cell hCell => hComplete cell (hPerm.mem_iff.mpr hCell))
    (fun cell hCell => hChips cell (hPerm.mem_iff.mpr hCell)) s
  have hArranged : c.Arranged ordered s t :=
    ⟨hPerm, hForward, driven_lt_size hBuildOrdered hReach, hSteps⟩
  have hSettled : ∀ k, p.parts.length ≤ k → c.after k s = t := fun k hk =>
    hArranged.after_eq hOk (hLength ▸ hk)
  -- everything else is read off the board `t` that the good order leads to
  refine ⟨fun k => ?_, ?_, fun k hk => ?_, ⟨parts, _, hParts, hBuildOrdered, hOrdered⟩, ?_⟩
  · obtain ⟨b', hPass⟩ := hOk (c.after k s)
    exact (stepped_eq_ok_iff.mpr hPass).1
  · rw [hSettled _ le_rfl]
    refine ⟨fun q _ hq => ?_, hArranged.holds⟩
    exact Cell.read_of_steps hSteps fun hDriven => hq ((Cell.mem_driven_of_perm hPerm).mpr hDriven)
  · rw [hSettled k hk, hSettled _ le_rfl]
  · intro parts' b₂ b₂' s' c' hParts' hBuild' hOrdered' hReach' hWords
    have hName : { p with parts := parts }.name = { p with parts := parts' }.name := rfl
    have hNets : { p with parts := parts }.nets = { p with parts := parts' }.nets := rfl
    obtain ⟨t', hSteps', hEnd⟩ := Plan.steps_of_perm hName hNets (hParts.symm.trans hParts')
      hBuildOrdered hBuild' hForward hOrdered'.feedForward hReach hReach' hWords hSteps
    obtain ⟨hOk', rfl⟩ := stepped_eq_ok_iff.mpr hSteps'
    rw [hSettled _ le_rfl]
    exact ⟨hOk', hEnd.symm⟩

/-- Three inverters in a row, the last one added first. -/
def backwards : Plan :=
  { name := "Backwards", inputs := [.bit "a"], outputs := [.bit "z"]
    internals := [.bit "x", .bit "y"]
    parts := [⟨"Not", [("in", "y"), ("out", "z")]⟩, ⟨"Not", [("in", "x"), ("out", "y")]⟩,
      ⟨"Not", [("in", "a"), ("out", "x")]⟩] }

/-- With the input set and a stale word on the first net, two steps are not enough and three are; from
then on nothing changes. -/
theorem acyclic_circuit_settles_backwards :
    ∃ b₁ c, backwards.build .standard .empty = .ok (b₁, c) ∧
      (∀ cell ∈ c.cells, cell.chip.NeverFails) ∧ (Cell.driven c.cells).Nodup ∧
      (∀ q ∈ Cell.driven c.cells, q ∉ c.inputs) ∧ Cell.Acyclic c.cells ∧ ¬ c.Ordered ∧
      (c.after 2 ((b₁.write 0 1).write 2 1)).readAll c.nets = [1, 1, 0, 1] ∧
      (c.after 3 ((b₁.write 0 1).write 2 1)).readAll c.nets = [1, 0, 0, 1] ∧
      ∀ k, 3 ≤ k → c.after k ((b₁.write 0 1).write 2 1) = c.after 3 ((b₁.write 0 1).write 2 1) := by
  have hBuild : backwards.build .standard .empty = .ok (Board.empty.grow backwards.nets,
    backwards.circuit 0 [⟨.not, [3], [1]⟩, ⟨.not, [2], [3]⟩, ⟨.not, [0], [2]⟩]) := rfl
  have hChips : ∀ cell ∈ ([⟨.not, [3], [1]⟩, ⟨.not, [2], [3]⟩, ⟨.not, [0], [2]⟩] : List Cell),
      cell.chip.NeverFails := by
    simp only [List.forall_mem_cons, Chip.not_neverFails, true_and]
    exact nofun
  have hAcyclic : Cell.Acyclic [⟨.not, [3], [1]⟩, ⟨.not, [2], [3]⟩, ⟨.not, [0], [2]⟩] :=
    Cell.acyclic_of_rank (fun cell => cell.inputs.sum + 3 * (cell.outputs.count 1)) (by decide)
  have hReach := ((Board.Reaches.refl (Board.empty.grow backwards.nets)).change
    (.write 0 1)).change (.write 2 1)
  obtain ⟨-, -, hSettled, -⟩ :=
    acyclic_circuit_settles.2 hBuild hChips (by decide) (by decide) hAcyclic hReach
  refine ⟨_, _, hBuild, hChips, by decide, by decide, hAcyclic, ?_, rfl, rfl, hSettled⟩
  -- the first cell reads what the second one drives
  intro hOrdered
  exact absurd (hOrdered.earlier [] _ _ rfl 3 (by decide) (by decide)) (by decide)

/-- A chip that is content with any word and gives none. -/
def lazy : Chip :=
  Chip.programmed "Lazy" [.bit "in"] [.bit "out"] []

/-- It neither refuses a word nor breaks down: it does nothing at all. -/
theorem lazy_accepts : lazy.Accepts := fun _ _ => ⟨_, rfl⟩

/-- An inverter on an internal net, read by a part that gives no word. -/
def idle : Plan :=
  { name := "Idle", inputs := [.bit "a"], outputs := [.bit "out"], internals := [.bit "n"]
    parts := [⟨"Not", [("in", "a"), ("out", "n")]⟩, ⟨"Lazy", [("in", "n"), ("out", "out")]⟩] }

/-- **A chip that leaves an output unset keeps a circuit from settling.** No chip of `idle` refuses
anything or breaks down, each net has one driver at most, no input has any, and the parts are in order.
But every step ends in a fault and is taken back, however many there have been, so the inverter never
gets to invert its input. -/
theorem idle_circuit_never_settles :
    ∃ b₁ c, idle.build ((Catalog.empty.register "Not" .not).register "Lazy" lazy) .empty =
        .ok (b₁, c) ∧
      (∀ cell ∈ c.cells, cell.chip.Accepts) ∧ (Cell.driven c.cells).Nodup ∧
      (∀ q ∈ Cell.driven c.cells, q ∉ c.inputs) ∧ Cell.Acyclic c.cells ∧ c.Ordered ∧
      (∀ k, (c.stepped (c.after k b₁)).outcome = .error (.fault (.unassignedOutput "Lazy" "out")) ∧
        c.after k b₁ = b₁) ∧
      ∃ cell ∈ c.cells, cell.chip.NeverFails ∧ ∀ k, ¬ cell.Holds (c.after k b₁) := by
  have hBuild : idle.build ((Catalog.empty.register "Not" .not).register "Lazy" lazy) .empty =
      .ok (Board.empty.grow idle.nets, idle.circuit 0 [⟨.not, [0], [2]⟩, ⟨lazy, [2], [1]⟩]) := rfl
  have hAccepts : ∀ cell ∈ ([⟨.not, [0], [2]⟩, ⟨lazy, [2], [1]⟩] : List Cell), cell.chip.Accepts := by
    simp only [List.forall_mem_cons, Chip.not_neverFails.accepts, lazy_accepts, true_and]
    exact nofun
  have hAcyclic : Cell.Acyclic [⟨.not, [0], [2]⟩, ⟨lazy, [2], [1]⟩] :=
    Cell.acyclic_of_rank (fun cell => cell.inputs.sum) (by decide)
  -- one step changes nothing, so no number of steps does
  have hStays : ∀ k, (idle.circuit 0 [⟨.not, [0], [2]⟩, ⟨lazy, [2], [1]⟩]).after k
      (Board.empty.grow idle.nets) = Board.empty.grow idle.nets := by
    intro k
    induction k with
    | zero => rfl
    | succ k ih =>
      rw [after_succ, ih]
      rfl
  refine ⟨_, _, hBuild, hAccepts, by decide, by decide, hAcyclic,
    ordered_of_feedForward (by decide) (by decide), fun k => ⟨?_, hStays k⟩,
    ⟨.not, [0], [2]⟩, List.mem_cons_self, Chip.not_neverFails, fun k => ?_⟩
  · rw [hStays k]
    rfl
  · -- the input is clear, so the net of the inverter would have to be set
    rw [hStays k]
    rintro ⟨slots, hEval, hWords⟩
    obtain rfl : (Slots.blank 1).set 0 (some 1) = slots := Except.ok.inj hEval
    obtain ⟨w, hw, hRead⟩ := hWords 0 2 rfl
    obtain rfl : 1 = w := Option.some.inj hw
    exact absurd hRead (by decide)

end Circuit

end Breadboard
