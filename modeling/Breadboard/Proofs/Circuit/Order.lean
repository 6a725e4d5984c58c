import Breadboard.Proofs.Circuit.Netlist
import Breadboard.Proofs.Circuit.Outcome
import Breadboard.Proofs.Circuit.Relocation
import Mathlib.Data.List.Perm.Basic

/-!
# Breadboard — the order of the parts

Parts run in the order in which they were added. As long as that order respects which part reads from
which (`Circuit.Ordered`), it makes no difference which of the possible orders it is:

* a plan can be built exactly if it can be built with its parts in another order;
* from the same words on the nets, the step of the one circuit goes through exactly if that of the
  other does, and then the nets end with the same words;
* otherwise both steps fault, perhaps with different faults, and neither changes anything.

The argument is that of equations (`Cell.Holds`), which have no order. What the one circuit ends with
solves the equations of all cells, so the other has a solution to end with (`Cell.steps_perm`). The two
circuits need not be on one board, nor have the same numbers for their nets: they are compared in
their windows.
-/

namespace Breadboard

namespace Cell

/-- The order of cells does not matter for what they drive. -/
theorem mem_driven_of_perm {cs ds : List Cell} (h : cs.Perm ds) {q : PinId} :
    q ∈ driven cs ↔ q ∈ driven ds :=
  (h.flatMap_right Cell.outputs).mem_iff

/-- **Two orders of the same cells, one result.** -/
theorem steps_perm {cs ds : List Cell} {b t : Board} (hPerm : cs.Perm ds)
    (hForward : FeedForward cs) (hForward' : FeedForward ds) (h : steps cs b = .ok t)
    (hSize : ∀ q ∈ driven cs, q < b.size) : steps ds b = .ok t := by
  have hSize' : ∀ q ∈ driven ds, q < b.size := fun q hq =>
    hSize q ((mem_driven_of_perm hPerm).mpr hq)
  have hHolds : ∀ c ∈ ds, c.Holds t := fun c hc =>
    holds_of_steps hForward h hSize c (hPerm.mem_iff.mpr hc)
  have hSignal : ∀ q, t.signal? q = b.signal? q := signal?_of_steps h
  have hFree : ∀ q, q ∉ driven ds → t.read q = b.read q := fun q hq =>
    read_of_steps h fun hDriven => hq ((mem_driven_of_perm hPerm).mp hDriven)
  -- the nets that matter are all pins of the cells
  have hNets : ∀ c ∈ ds, ∀ q ∈ c.inputs ++ c.outputs,
      q ∈ ds.flatMap fun c => c.inputs ++ c.outputs :=
    fun c hc q hq => List.mem_flatMap.mpr ⟨c, hc, hq⟩
  obtain ⟨t', h'⟩ := steps_of_holds hForward' hSize' hNets (fun q _ => hSignal q)
    (fun q _ => hFree q) hHolds
  -- both ends solve the same equations, and agree on the nets that no cell drives
  have hEq : t' = t := by
    refine Board.ext_read (fun q => ?_) (fun q => ?_)
    · rw [signal?_of_steps h', hSignal]
    · by_cases hDriven : q ∈ driven ds
      · obtain ⟨c, hc, hOut⟩ := mem_driven.mp hDriven
        exact (eq_of_holds hForward' h' hSize' hNets (fun q _ => hSignal q) (fun q _ => hFree q)
          hHolds q (hNets c hc q (List.mem_append_right _ hOut))).symm
      · rw [read_of_steps h' hDriven, hFree q hDriven]
  rw [h', hEq]

/-- Cells that feed forward do so wherever they are. -/
theorem FeedForward.of_shift {base : Nat} {cs : List Cell}
    (h : FeedForward (cs.map (shift base))) : FeedForward cs := by
  induction cs with
  | nil => trivial
  | cons c cs ih =>
    have hDriven : ∀ q, ∀ ds : List Cell, q ∈ driven ds → base + q ∈ driven (ds.map (shift base)) := by
      intro q ds hq
      rw [driven_shift]
      exact List.mem_map_of_mem hq
    obtain ⟨⟨hNodup, hLater⟩, hReads, hRest⟩ := h
    refine ⟨⟨hNodup.of_map _, fun q hq hq' => ?_⟩, fun q hq hq' => ?_, ih hRest⟩
    · exact hLater (base + q) (List.mem_map_of_mem hq) (hDriven q cs hq')
    · exact hReads (base + q) (List.mem_map_of_mem hq) (hDriven q (c :: cs) hq')

end Cell

namespace Plan

section Permuted

variable {p₁ p₂ : Plan} {catalog : Catalog}

/-- A plan is well-formed in whatever order its parts are. -/
theorem WellFormed.of_perm (hNets : p₁.nets = p₂.nets) (hPerm : p₁.parts.Perm p₂.parts)
    (h : p₁.WellFormed catalog) : p₂.WellFormed catalog := by
  refine ⟨hNets ▸ h.widths, hNets ▸ h.names, fun it hIt => ?_⟩
  obtain ⟨chip, hChip, hFits⟩ := h.parts it (hPerm.mem_iff.mpr hIt)
  exact ⟨chip, hChip, hFits.once, hFits.signals, hNets ▸ hFits.nets, hNets ▸ hFits.widths⟩

/-- A plan can be built in whatever order its parts are. -/
theorem exists_build_of_perm (hNets : p₁.nets = p₂.nets) (hPerm : p₁.parts.Perm p₂.parts)
    (b₁ b₂ : Board) (h : ∃ r, p₁.build catalog b₁ = .ok r) : ∃ r, p₂.build catalog b₂ = .ok r := by
  rw [(p₁.reports_build catalog b₁).ok_iff, violations_eq_nil] at h
  rw [(p₂.reports_build catalog b₂).ok_iff, violations_eq_nil]
  exact h.of_perm hNets hPerm

/-- On one board, the cells are the same up to their order. -/
theorem cells_perm {b b₁ b₂ : Board} {c₁ c₂ : Circuit} (hName : p₁.name = p₂.name)
    (hNets : p₁.nets = p₂.nets) (hPerm : p₁.parts.Perm p₂.parts)
    (h₁ : p₁.build catalog b = .ok (b₁, c₁)) (h₂ : p₂.build catalog b = .ok (b₂, c₂)) :
    c₁.cells.Perm c₂.cells := by
  obtain ⟨hPlace₁, cells₁, rfl, hCells₁⟩ := build_eq_ok_iff.mp h₁
  obtain ⟨hPlace₂, cells₂, rfl, hCells₂⟩ := build_eq_ok_iff.mp h₂
  rw [hName, hNets, hPlace₂] at hPlace₁
  obtain rfl : b₂ = b₁ := Except.ok.inj hPlace₁
  rw [← hName, ← hNets] at hCells₂
  obtain ⟨cells, hCells, hPermCells⟩ := List.perm_comp_forall₂ hPerm hCells₂
  -- a part stands for one cell only
  have hSame : cells₁ = cells := by
    rw [← List.map_id cells]
    exact eq_map_of_forall₂ hCells₁ hCells fun _ _ _ h h' => Except.ok.inj (h.symm.trans h')
  rw [show (p₁.circuit b.size cells₁).cells = cells from hSame]
  exact hPermCells

variable {b₁ b₁' s₁ t₁ b₂ b₂' s₂ : Board} {c₁ c₂ : Circuit}

/-- **A pass in one order gives a pass in the other**, on circuits anywhere that hold the same words. -/
theorem steps_of_perm (hName : p₁.name = p₂.name) (hNets : p₁.nets = p₂.nets)
    (hPerm : p₁.parts.Perm p₂.parts) (h₁ : p₁.build catalog b₁ = .ok (b₁', c₁))
    (h₂ : p₂.build catalog b₂ = .ok (b₂', c₂)) (hForward₁ : Cell.FeedForward c₁.cells)
    (hForward₂ : Cell.FeedForward c₂.cells) (hReach₁ : b₁'.Reaches s₁) (hReach₂ : b₂'.Reaches s₂)
    (hWords : s₁.readAll c₁.nets = s₂.readAll c₂.nets)
    (hSteps : Cell.steps c₁.cells s₁ = .ok t₁) :
    ∃ t₂, Cell.steps c₂.cells s₂ = .ok t₂ ∧ t₁.readAll c₁.nets = t₂.readAll c₂.nets := by
  obtain ⟨_, d₁, hd₁⟩ := exists_build_empty h₁
  obtain ⟨_, d₂, hd₂⟩ := exists_build_empty h₂
  have hCells₁ := cells_eq_shift h₁ hd₁
  have hCells₂ := cells_eq_shift h₂ hd₂
  have hWindow := window_eq_window h₁ h₂ hNets hReach₁ hReach₂ hWords
  -- the first pass, seen in the window, and the same in the other order
  have hPass₁ := Cell.steps_shift b₁.size (cell_pins_lt hd₁) s₁
  rw [← hCells₁, hSteps] at hPass₁
  have hSize : ∀ q ∈ Cell.driven d₁.cells, q < (s₁.window b₁.size p₁.nets.length).size := by
    intro q hq
    obtain ⟨cell, hCell, hOut⟩ := Cell.mem_driven.mp hq
    have hLt := cell_pins_lt hd₁ cell hCell q (List.mem_append_right _ hOut)
    rw [← Board.signal?_isSome_iff, signal?_window_of_build h₁ hReach₁,
      List.getElem?_eq_getElem hLt]
    rfl
  rw [hCells₁] at hForward₁
  rw [hCells₂] at hForward₂
  have hPass₂ := Cell.steps_perm (cells_perm hName hNets hPerm hd₁ hd₂) hForward₁.of_shift
    hForward₂.of_shift hPass₁.symm hSize
  -- the second circuit does on its board what this pass does in the window
  have hBoard := Cell.steps_shift b₂.size (cell_pins_lt hd₂) s₂
  rw [← hCells₂, ← hWindow, hPass₂] at hBoard
  cases hEnd : Cell.steps c₂.cells s₂ with
  | error e =>
    rw [hEnd] at hBoard
    cases hBoard
  | ok t₂ =>
    rw [hEnd] at hBoard
    refine ⟨t₂, rfl, ?_⟩
    have hEq : t₂.window b₂.size p₂.nets.length = t₁.window b₁.size p₁.nets.length :=
      Except.ok.inj hBoard
    rw [readAll_nets_of_build h₁, readAll_nets_of_build h₂, hEq, hNets]

end Permuted

end Plan

namespace Circuit

section Built

variable {p : Plan} {catalog : Catalog} {b₀ b₁ s : Board} {c : Circuit}

/-- When no cell drives an input and no chip breaks down, a step that does not go through faults and
changes nothing. -/
theorem stepped_of_not_ok (hBuild : p.build catalog b₀ = .ok (b₁, c)) (hReach : b₁.Reaches s)
    (hFree : ∀ q ∈ Cell.driven c.cells, q ∉ c.inputs)
    (hChips : ∀ cell ∈ c.cells, cell.chip.NeverCrashes) (hNot : (c.stepped s).outcome ≠ .ok ()) :
    (∃ f, (c.stepped s).outcome = .error (.fault f)) ∧ (c.stepped s).board = s := by
  rcases steps_or_fault (Plan.complete_of_build hBuild) hChips s with
    ⟨t, hSteps⟩ | ⟨ran, failed, rest, left, f, hCells, hRan, hFailed⟩
  · exact absurd (stepped_eq_ok_iff.mpr hSteps).1 hNot
  · have hFault : (run c.name c.cells s).outcome = .error (.fault f) := by
      rw [hCells, run_of_fault c.name hRan hFailed]
    refine ⟨⟨f, by rw [stepped_outcome, hFault]⟩, Board.ext_read (fun q => ?_) (fun q => ?_)⟩
    · obtain ⟨ws, hws⟩ := c.stepped_eq_writeAll s
      rw [hws, Board.signal?_writeAll]
    · by_cases hDriven : q ∈ Cell.driven c.cells
      · obtain ⟨cell, hCell, hOut⟩ := Cell.mem_driven.mp hDriven
        have hNet := Plan.cell_pins_of_build hBuild hCell (List.mem_append_right _ hOut)
        rw [read_of_fault hBuild hReach hFault hNet, if_neg (hFree q hDriven)]
      · exact read_stepped_of_not_driven hBuild hReach hDriven

end Built

/--
**The order of the parts does not matter.** Take a plan and the same plan with its parts in another
order. One of them can be built exactly if the other can, on whatever boards. Let both be built, both
orders respecting the dependencies, with chips that may fault but do not break down, and let the two
circuits hold the same words. Then one step goes through exactly if the other does. If they do, the
nets end with the same words; if not, both fault and both boards are as they were.
-/
theorem order_of_parts_irrelevant {p : Plan} {parts : List Placement} {catalog : Catalog}
    (hPerm : p.parts.Perm parts) :
    (∀ b₁ b₂, (∃ r, p.build catalog b₁ = .ok r) ↔
      ∃ r, { p with parts := parts }.build catalog b₂ = .ok r) ∧
    ∀ {b₁ b₁' b₂ b₂' : Board} {c₁ c₂ : Circuit},
      p.build catalog b₁ = .ok (b₁', c₁) →
      { p with parts := parts }.build catalog b₂ = .ok (b₂', c₂) →
      c₁.Ordered → c₂.Ordered →
      (∀ cell ∈ c₁.cells ++ c₂.cells, cell.chip.NeverCrashes) →
      ∀ s₁ s₂, b₁'.Reaches s₁ → b₂'.Reaches s₂ → s₁.readAll c₁.nets = s₂.readAll c₂.nets →
      ((c₁.stepped s₁).outcome = .ok () ↔ (c₂.stepped s₂).outcome = .ok ()) ∧
      ((c₁.stepped s₁).outcome = .ok () →
        (c₁.stepped s₁).board.readAll c₁.nets = (c₂.stepped s₂).board.readAll c₂.nets) ∧
      ((c₁.stepped s₁).outcome ≠ .ok () →
        ((∃ f, (c₁.stepped s₁).outcome = .error (.fault f)) ∧ (c₁.stepped s₁).board = s₁) ∧
        ((∃ f, (c₂.stepped s₂).outcome = .error (.fault f)) ∧ (c₂.stepped s₂).board = s₂)) := by
  have hName : p.name = { p with parts := parts }.name := rfl
  have hNets : p.nets = { p with parts := parts }.nets := rfl
  refine ⟨fun b₁ b₂ => ⟨Plan.exists_build_of_perm hNets hPerm b₁ b₂,
    Plan.exists_build_of_perm hNets.symm hPerm.symm b₂ b₁⟩, ?_⟩
  intro b₁ b₁' b₂ b₂' c₁ c₂ h₁ h₂ hOrdered₁ hOrdered₂ hChips s₁ s₂ hReach₁ hReach₂ hWords
  rw [List.forall_mem_append] at hChips
  -- from the first circuit to the second, and back
  have hThere : (c₁.stepped s₁).outcome = .ok () → (c₂.stepped s₂).outcome = .ok () ∧
      (c₁.stepped s₁).board.readAll c₁.nets = (c₂.stepped s₂).board.readAll c₂.nets := by
    intro hOk
    obtain ⟨t₂, hSteps₂, hEnd⟩ := Plan.steps_of_perm hName hNets hPerm h₁ h₂
      hOrdered₁.feedForward hOrdered₂.feedForward hReach₁ hReach₂ hWords (stepped_eq_ok_iff.mp ⟨hOk, rfl⟩)
    obtain ⟨hOk₂, rfl⟩ := stepped_eq_ok_iff.mpr hSteps₂
    exact ⟨hOk₂, hEnd⟩
  have hBack : (c₂.stepped s₂).outcome = .ok () → (c₁.stepped s₁).outcome = .ok () := by
    intro hOk
    obtain ⟨t₁, hSteps₁, -⟩ := Plan.steps_of_perm hName.symm hNets.symm hPerm.symm h₂ h₁
      hOrdered₂.feedForward hOrdered₁.feedForward hReach₂ hReach₁ hWords.symm (stepped_eq_ok_iff.mp ⟨hOk, rfl⟩)
    exact (stepped_eq_ok_iff.mpr hSteps₁).1
  refine ⟨⟨fun h => (hThere h).1, hBack⟩, fun h => (hThere h).2, fun hNot => ⟨?_, ?_⟩⟩
  · exact stepped_of_not_ok h₁ hReach₁ hOrdered₁.free hChips.1 hNot
  · exact stepped_of_not_ok h₂ hReach₂ hOrdered₂.free hChips.2 fun h => hNot (hBack h)

/-! ## Two orders of one plan -/

/-- A chip that passes on a bit that is clear and refuses one that is set. -/
def guard (name : String) : Chip :=
  .programmed name [.bit "in"] [.bit "out"] [.failIf 0 1 "high", .copy 0 0]

/-- A guard faults or passes a bit on. -/
theorem guard_neverCrashes (name : String) : (guard name).NeverCrashes := by
  intro ws hLength
  obtain ⟨w, rfl⟩ := List.length_eq_one_iff.mp hLength
  show (if w = 1 then _ else _) ≠ _
  split
  · exact nofun
  · exact nofun

/-- Two such chips and an inverter. -/
def guards : Catalog :=
  ((Catalog.empty.register "Left" (guard "Left")).register "Right" (guard "Right")).register "Not"
    Chip.not

/-- Both inputs are guarded, and what passes on the left is inverted. -/
def guarded : Plan :=
  { name := "Guarded", inputs := [.bit "a", .bit "b"]
    outputs := [.bit "x", .bit "y", .bit "z"]
    parts := [⟨"Left", [("in", "a"), ("out", "x")]⟩, ⟨"Not", [("in", "x"), ("out", "z")]⟩,
      ⟨"Right", [("in", "b"), ("out", "y")]⟩] }

/-- The same parts, the right side first. -/
def rightFirst : List Placement :=
  [⟨"Right", [("in", "b"), ("out", "y")]⟩, ⟨"Left", [("in", "a"), ("out", "x")]⟩,
    ⟨"Not", [("in", "x"), ("out", "z")]⟩]

/-- Side by side on one board, the two circuits end with the same words when both inputs are clear.
When both are set, the one faults on the left and the other on the right, and nothing is changed. -/
theorem order_of_parts_irrelevant_guarded :
    ∃ b₁ c₁ b₂ c₂, guarded.build guards .empty = .ok (b₁, c₁) ∧
      { guarded with parts := rightFirst }.build guards b₁ = .ok (b₂, c₂) ∧
      c₁.Ordered ∧ c₂.Ordered ∧ (∀ cell ∈ c₁.cells ++ c₂.cells, cell.chip.NeverCrashes) ∧
      (c₁.stepped b₁).board.readAll c₁.nets = [0, 0, 0, 0, 1] ∧
      (c₁.stepped b₁).board.readAll c₁.nets = (c₂.stepped b₂).board.readAll c₂.nets ∧
      (c₁.stepped ((b₁.write 0 1).write 1 1)).outcome =
        .error (.fault (.evaluation "Left" "high")) ∧
      (c₂.stepped ((b₂.write 5 1).write 6 1)).outcome =
        .error (.fault (.evaluation "Right" "high")) ∧
      (c₁.stepped ((b₁.write 0 1).write 1 1)).board = (b₁.write 0 1).write 1 1 ∧
      (c₂.stepped ((b₂.write 5 1).write 6 1)).board = (b₂.write 5 1).write 6 1 := by
  have hBuild₁ : guarded.build guards .empty = .ok (Board.empty.grow guarded.nets,
    guarded.circuit 0 [⟨guard "Left", [0], [2]⟩, ⟨.not, [2], [4]⟩, ⟨guard "Right", [1], [3]⟩]) := rfl
  have hBuild₂ : { guarded with parts := rightFirst }.build guards (Board.empty.grow guarded.nets) =
    .ok ((Board.empty.grow guarded.nets).grow guarded.nets,
      guarded.circuit 5 [⟨guard "Right", [6], [8]⟩, ⟨guard "Left", [5], [7]⟩, ⟨.not, [7], [9]⟩]) := rfl
  -- both inputs clear, then both set
  have hOrdered₁ : Ordered (guarded.circuit 0
      [⟨guard "Left", [0], [2]⟩, ⟨.not, [2], [4]⟩, ⟨guard "Right", [1], [3]⟩]) :=
    ordered_of_feedForward (by decide) (by decide)
  have hOrdered₂ : Ordered (guarded.circuit 5
      [⟨guard "Right", [6], [8]⟩, ⟨guard "Left", [5], [7]⟩, ⟨.not, [7], [9]⟩]) :=
    ordered_of_feedForward (by decide) (by decide)
  have hCells : ∀ cell ∈ ([⟨guard "Left", [0], [2]⟩, ⟨.not, [2], [4]⟩, ⟨guard "Right", [1], [3]⟩,
      ⟨guard "Right", [6], [8]⟩, ⟨guard "Left", [5], [7]⟩, ⟨.not, [7], [9]⟩] : List Cell),
      cell.chip.NeverCrashes := by
    simp only [List.forall_mem_cons, guard_neverCrashes, Chip.not_neverCrashes, true_and]
    exact nofun
  have hPerm : guarded.parts.Perm rightFirst := by decide
  have hOrder := (order_of_parts_irrelevant hPerm).2 hBuild₁ hBuild₂ hOrdered₁ hOrdered₂ hCells
  have hClear₁ : (Board.empty.grow guarded.nets).readAll (guarded.circuit 0 []).nets =
    [0, 0, 0, 0, 0] := rfl
  have hClear₂ : ((Board.empty.grow guarded.nets).grow guarded.nets).readAll
    (guarded.circuit 5 []).nets = [0, 0, 0, 0, 0] := rfl
  obtain ⟨-, hEqual, -⟩ := hOrder _ _ (Board.Reaches.refl _) (Board.Reaches.refl _)
    (hClear₁.trans hClear₂.symm)
  have hSet₁ : (((Board.empty.grow guarded.nets).write 0 1).write 1 1).readAll
    (guarded.circuit 0 []).nets = [1, 1, 0, 0, 0] := rfl
  have hSet₂ : ((((Board.empty.grow guarded.nets).grow guarded.nets).write 5 1).write 6 1).readAll
    (guarded.circuit 5 []).nets = [1, 1, 0, 0, 0] := rfl
  obtain ⟨-, -, hFaulted⟩ := hOrder _ _
    (((Board.Reaches.refl _).change (.write 0 1)).change (.write 1 1))
    (((Board.Reaches.refl _).change (.write 5 1)).change (.write 6 1)) (hSet₁.trans hSet₂.symm)
  obtain ⟨⟨-, hKept₁⟩, -, hKept₂⟩ := hFaulted nofun
  exact ⟨_, _, _, _, hBuild₁, hBuild₂, hOrdered₁, hOrdered₂, hCells, rfl, hEqual rfl, rfl, rfl,
    hKept₁, hKept₂⟩

end Circuit

end Breadboard
