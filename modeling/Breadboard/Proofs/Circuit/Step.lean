import Breadboard.Circuit
import Breadboard.Proofs.Board

/-!
# Breadboard — what a step can do

A step of a cell either writes one word to each of its outputs or writes nothing, and a step of a
circuit is made of steps of its cells. So all that a gate can do to a board is to write words
(`Gate.stepped_eq_writeAll`), and everything that no write can break, no step can.

* `Cell.step` — the board after a step that goes through; `Cell.step_eq_ok_iff` says when it does
  and what is written then, `Cell.stepped_of_error` that a step which fails writes nothing;
* `Cell.steps` — cells one after the other; `Circuit.run_eq_ok_iff` and `Circuit.run_eq_error` tie
  it to the run of a circuit;
* `Board.Reaches` — the boards that lie ahead of a board: pins may be added, any pin may be
  written to, and any gate may be stepped, however the step ends.
-/

namespace Breadboard

/-! ## Staged words -/

namespace Slots

variable {n : Nat}

/-- When no slot is unset, the words that were set are the words of the slots. -/
theorem words_of_firstUnset {s : Slots n} (h : s.firstUnset = none) :
    s.words.map some = s.toList := by
  have hAll : ∀ x ∈ s.toList, x.isNone = false := by
    intro x hx
    exact List.findIdx?_eq_none_iff.mp h x hx
  unfold words
  generalize s.toList = l at hAll
  induction l with
  | nil => rfl
  | cons x l ih =>
    have hx := hAll x (List.mem_cons_self ..)
    cases x with
    | none => simp at hx
    | some w => simpa using ih fun y hy => hAll y (List.mem_cons_of_mem _ hy)

/-- With no slot unset, the `k`-th word is that of slot `k`. -/
theorem words_getElem? {s : Slots n} (h : s.firstUnset = none) (k : Nat) :
    s.words[k]? = s.word? k := by
  have hGet : (s.words.map some)[k]? = s.toList[k]? := by rw [words_of_firstUnset h]
  rw [List.getElem?_map] at hGet
  unfold word?
  -- slot and word are compared as places of one list
  have hList : s[k]? = s.toList[k]? := by simp
  rw [hList, ← hGet]
  cases s.words[k]? <;> rfl

/-- With no slot unset, every slot has a word. -/
theorem exists_word?_of_lt {s : Slots n} (h : s.firstUnset = none) {k : Nat} (hk : k < n) :
    ∃ w, s.word? k = some w := by
  have hLen : s.words.length = n := by
    rw [← List.length_map (f := some), words_of_firstUnset h, Vector.length_toList]
  rw [← words_getElem? h]
  exact ⟨_, List.getElem?_eq_getElem (by omega)⟩

/-- If every slot has a word, none is unset. -/
theorem firstUnset_eq_none {s : Slots n} (h : ∀ k < n, ∃ w, s.word? k = some w) :
    s.firstUnset = none := by
  unfold firstUnset
  rw [List.findIdx?_eq_none_iff]
  intro x hx
  obtain ⟨k, hk, rfl⟩ := List.getElem_of_mem hx
  rw [Vector.length_toList] at hk
  obtain ⟨w, hw⟩ := h k hk
  rw [word?, Vector.getElem?_eq_getElem hk, Option.join_some] at hw
  rw [Vector.getElem_toList, hw, Option.isNone_some]

end Slots

/-! ## One cell -/

namespace Cell

/-- The board after a step that goes through, or else why it did not. -/
def step (c : Cell) (b : Board) : Except Failure Board :=
  (c.stepped b).outcome.map fun _ => (c.stepped b).board

/-- A step asks the chip, and then for a word in every slot. -/
theorem step_eq (c : Cell) (b : Board) :
    c.step b = (c.chip.evaluate (b.readAll c.inputs) (Slots.blank c.outputs.length) >>= fun slots =>
      match slots.firstUnset with
      | some k => .error (.fault (.unassignedOutput c.chip.name (b.nameOf (c.outputs.getD k 0))))
      | none => .ok (b.writeAll (c.outputs.zip slots.words))) := by
  unfold step stepped
  cases c.chip.evaluate (b.readAll c.inputs) (Slots.blank c.outputs.length) with
  | error e => rfl
  | ok slots =>
    simp only [bind, Except.bind]
    cases slots.firstUnset <;> rfl

/-- A step that goes through is noted. -/
theorem stepped_of_ok {c : Cell} {b b' : Board} (h : c.step b = .ok b') :
    c.stepped b = ⟨b', [c.notice b], .ok ()⟩ := by
  unfold step at h
  unfold stepped at h ⊢
  -- had the chip failed or a slot been left unset, there would be no board
  split
  next hEval => simp [hEval, Except.map] at h
  next slots hEval =>
    simp only [hEval] at h
    split
    next hUnset => simp [hUnset, Except.map] at h
    next hUnset =>
      simp only [hUnset, Except.map, Except.ok.injEq] at h
      rw [h]

/-- **A step that fails writes nothing.** The board is the one that the step was given. -/
theorem stepped_of_error {c : Cell} {b : Board} {e : Failure} (h : c.step b = .error e) :
    c.stepped b = ⟨b, [], .error e⟩ := by
  unfold step at h
  unfold stepped at h ⊢
  split
  next hEval => simpa [hEval, Except.map] using h
  next slots hEval =>
    simp only [hEval] at h
    split
    next hUnset => simpa [hUnset, Except.map] using h
    next hUnset => simp [hUnset, Except.map] at h

/-- **When a cell steps.** The chip has to give a word for every output; then these are written. -/
theorem step_eq_ok_iff {c : Cell} {b b' : Board} :
    c.step b = .ok b' ↔
      ∃ slots, c.chip.evaluate (b.readAll c.inputs) (Slots.blank c.outputs.length) = .ok slots ∧
        slots.firstUnset = none ∧ b' = b.writeAll (c.outputs.zip slots.words) := by
  rw [step_eq]
  -- three ways to end, of which the last is the one that steps
  cases hEval : c.chip.evaluate (b.readAll c.inputs) (Slots.blank c.outputs.length) with
  | error e => simp [bind, Except.bind]
  | ok slots =>
    cases hUnset : slots.firstUnset with
    | some k => simp [bind, Except.bind, hUnset]
    | none => simp [bind, Except.bind, hUnset, eq_comm]

/-- What a cell does to the board is to write words to its outputs. -/
theorem step_eq_writeAll {c : Cell} {b b' : Board} (h : c.step b = .ok b') :
    ∃ ws : List Word, b' = b.writeAll (c.outputs.zip ws) := by
  obtain ⟨slots, -, -, hb'⟩ := step_eq_ok_iff.mp h
  exact ⟨slots.words, hb'⟩

/-- Names and widths are as before a step. -/
theorem signal?_of_step {c : Cell} {b b' : Board} (h : c.step b = .ok b') (p : PinId) :
    b'.signal? p = b.signal? p := by
  obtain ⟨ws, rfl⟩ := step_eq_writeAll h
  exact Board.signal?_writeAll ..

theorem size_of_step {c : Cell} {b b' : Board} (h : c.step b = .ok b') : b'.size = b.size := by
  obtain ⟨ws, rfl⟩ := step_eq_writeAll h
  exact Board.size_writeAll ..

/-- A cell writes to its outputs only. -/
theorem read_of_step {c : Cell} {b b' : Board} (h : c.step b = .ok b') {p : PinId}
    (hp : p ∉ c.outputs) : b'.read p = b.read p := by
  obtain ⟨ws, rfl⟩ := step_eq_writeAll h
  apply Board.read_writeAll_of_not_mem
  intro hMem
  obtain ⟨⟨q, w⟩, hZip, rfl⟩ := List.mem_map.mp hMem
  exact hp (List.of_mem_zip hZip).1

/-! ## Cells one after the other -/

/-- Steps cells in order; the first that fails ends it. -/
def steps : List Cell → Board → Except Failure Board
  | [], b => .ok b
  | c :: cs, b => do steps cs (← c.step b)

/-- The pins that some cells write to. -/
def driven (cells : List Cell) : List PinId := cells.flatMap Cell.outputs

@[simp] theorem driven_nil : driven [] = [] := rfl

@[simp] theorem driven_cons (c : Cell) (cs : List Cell) :
    driven (c :: cs) = c.outputs ++ driven cs := rfl

@[simp] theorem driven_append (cs cs' : List Cell) :
    driven (cs ++ cs') = driven cs ++ driven cs' := List.flatMap_append

theorem mem_driven {cs : List Cell} {p : PinId} : p ∈ driven cs ↔ ∃ c ∈ cs, p ∈ c.outputs :=
  List.mem_flatMap

/-- Cells step if the first one does and the others do after it. -/
theorem steps_cons_eq_ok_iff {c : Cell} {cs : List Cell} {b b' : Board} :
    steps (c :: cs) b = .ok b' ↔ ∃ b₁, c.step b = .ok b₁ ∧ steps cs b₁ = .ok b' := by
  rw [steps]
  cases h : c.step b with
  | error e => simp [bind, Except.bind]
  | ok b₁ => simp [bind, Except.bind]

/-- What cells do to the board is to write words. -/
theorem steps_eq_writeAll {cs : List Cell} {b b' : Board} (h : steps cs b = .ok b') :
    ∃ ws, b' = b.writeAll ws := by
  induction cs generalizing b with
  | nil =>
    obtain rfl : b = b' := by simpa [steps] using h
    exact ⟨[], rfl⟩
  | cons c cs ih =>
    obtain ⟨b₁, hStep, hRest⟩ := steps_cons_eq_ok_iff.mp h
    obtain ⟨ws, rfl⟩ := step_eq_writeAll hStep
    obtain ⟨ws', rfl⟩ := ih hRest
    exact ⟨_, (Board.writeAll_append ..).symm⟩

/-- Names and widths are as before any number of steps. -/
theorem signal?_of_steps {cs : List Cell} {b b' : Board} (h : steps cs b = .ok b') (p : PinId) :
    b'.signal? p = b.signal? p := by
  obtain ⟨ws, rfl⟩ := steps_eq_writeAll h
  exact Board.signal?_writeAll ..

/-- Cells write to what they drive only. -/
theorem read_of_steps {cs : List Cell} {b b' : Board} (h : steps cs b = .ok b') {p : PinId}
    (hp : p ∉ driven cs) : b'.read p = b.read p := by
  induction cs generalizing b with
  | nil =>
    obtain rfl : b = b' := by simpa [steps] using h
    rfl
  | cons c cs ih =>
    obtain ⟨b₁, hStep, hRest⟩ := steps_cons_eq_ok_iff.mp h
    rw [driven_cons, List.mem_append, not_or] at hp
    rw [ih hRest hp.2, read_of_step hStep hp.1]

end Cell

/-! ## Circuits -/

namespace Circuit

/-- The run goes on from what a cell that steps leaves. -/
theorem run_cons_of_ok (name : String) {c : Cell} {b b' : Board} (cs : List Cell)
    (h : c.step b = .ok b') :
    run name (c :: cs) b =
      { run name cs b' with notices := c.notice b :: (run name cs b').notices } := by
  rw [run, Cell.stepped_of_ok h]
  rfl

/-- A cell that faults is named, and the run is over. -/
theorem run_cons_of_fault (name : String) {c : Cell} {b : Board} {f : Fault} (cs : List Cell)
    (h : c.step b = .error (.fault f)) :
    run name (c :: cs) b = ⟨b, [.cellFaulted name c.chip.name f], .error (.fault f)⟩ := by
  rw [run, Cell.stepped_of_error h]
  rfl

/-- A cell that crashes ends the run without a word. -/
theorem run_cons_of_crash (name : String) {c : Cell} {b : Board} (cs : List Cell)
    (h : c.step b = .error .crash) : run name (c :: cs) b = ⟨b, [], .error .crash⟩ := by
  rw [run, Cell.stepped_of_error h]

/-- A run that fails at its first cell leaves the board alone. -/
theorem run_cons_of_error (name : String) {c : Cell} {b : Board} {e : Failure} (cs : List Cell)
    (h : c.step b = .error e) :
    (run name (c :: cs) b).board = b ∧ (run name (c :: cs) b).outcome = .error e := by
  cases e with
  | fault f =>
    rw [run_cons_of_fault name cs h]
    exact ⟨rfl, rfl⟩
  | crash =>
    rw [run_cons_of_crash name cs h]
    exact ⟨rfl, rfl⟩

/-- A run that goes through is all cells stepped in order. -/
theorem run_eq_ok_iff (name : String) {cells : List Cell} {b b' : Board} :
    (run name cells b).outcome = .ok () ∧ (run name cells b).board = b' ↔
      Cell.steps cells b = .ok b' := by
  induction cells generalizing b with
  | nil => simp [run, Cell.steps]
  | cons c cs ih =>
    rw [Cell.steps]
    cases h : c.step b with
    | ok b₁ =>
      rw [run_cons_of_ok name cs h]
      exact ih
    -- a failure is no board on either side
    | error e =>
      rw [(run_cons_of_error name cs h).2]
      simp [bind, Except.bind]

/-- **A run that fails** has stepped the cells before the one that failed, and the board is as
they left it. -/
theorem run_eq_error {name : String} {cells : List Cell} {b : Board} {e : Failure}
    (h : (run name cells b).outcome = .error e) :
    ∃ ran failed rest, cells = ran ++ failed :: rest ∧
      Cell.steps ran b = .ok (run name cells b).board ∧
      failed.step (run name cells b).board = .error e := by
  induction cells generalizing b with
  | nil => simp [run] at h
  | cons c cs ih =>
    cases hStep : c.step b with
    | ok b₁ =>
      rw [run_cons_of_ok name cs hStep] at h ⊢
      obtain ⟨ran, failed, rest, rfl, hRan, hFailed⟩ := ih h
      refine ⟨c :: ran, failed, rest, rfl, ?_, hFailed⟩
      exact Cell.steps_cons_eq_ok_iff.mpr ⟨b₁, hStep, hRan⟩
    | error e' =>
      -- the first cell is the one that failed, and nothing has been stepped
      obtain ⟨hBoard, hOutcome⟩ := run_cons_of_error name cs hStep
      obtain rfl : e' = e := by simpa [hOutcome] using h
      exact ⟨[], c, cs, rfl, by rw [hBoard]; rfl, by rw [hBoard]; exact hStep⟩

/-- A run, too, does no more than write words, also if it fails. -/
theorem run_eq_writeAll (name : String) (cells : List Cell) (b : Board) :
    ∃ ws, (run name cells b).board = b.writeAll ws := by
  cases h : (run name cells b).outcome with
  | ok _ => exact Cell.steps_eq_writeAll ((run_eq_ok_iff name).mp ⟨h, rfl⟩)
  | error e =>
    obtain ⟨ran, failed, rest, -, hRan, -⟩ := run_eq_error h
    exact Cell.steps_eq_writeAll hRan

/-- A step that does not fault is the run of its cells. -/
theorem stepped_eq_run {c : Circuit} {b : Board}
    (h : ∀ f, (run c.name c.cells b).outcome ≠ .error (.fault f)) :
    c.stepped b = run c.name c.cells b := by
  simp only [stepped]

/-- A step that faults writes back what outputs and internal nets held. -/
theorem stepped_of_fault {c : Circuit} {b : Board} {f : Fault}
    (h : (run c.name c.cells b).outcome = .error (.fault f)) :
    c.stepped b = { run c.name c.cells b with
      board := (run c.name c.cells b).board.writeAll (c.saved b) } := by
  simp only [stepped, h]

/-- Writing back does not change how the run ended. -/
theorem stepped_outcome (c : Circuit) (b : Board) :
    (c.stepped b).outcome = (run c.name c.cells b).outcome := by
  by_cases h : ∃ f, (run c.name c.cells b).outcome = .error (.fault f)
  · obtain ⟨f, hf⟩ := h
    rw [stepped_of_fault hf]
  · rw [stepped_eq_run fun f hf => h ⟨f, hf⟩]

/-- A step that goes through leaves what the cells leave. -/
theorem stepped_eq_ok_iff {c : Circuit} {b b' : Board} :
    (c.stepped b).outcome = .ok () ∧ (c.stepped b).board = b' ↔
      Cell.steps c.cells b = .ok b' := by
  rw [← run_eq_ok_iff c.name, stepped_outcome]
  refine and_congr_right fun h => ?_
  rw [stepped_eq_run fun f hf => by simp [hf] at h]

/-- With what is written back, a step is still no more than words written. -/
theorem stepped_eq_writeAll (c : Circuit) (b : Board) :
    ∃ ws, (c.stepped b).board = b.writeAll ws := by
  obtain ⟨ws, hws⟩ := run_eq_writeAll c.name c.cells b
  by_cases h : ∃ f, (run c.name c.cells b).outcome = .error (.fault f)
  · -- after a fault more words are written, those that were saved
    obtain ⟨f, hf⟩ := h
    refine ⟨ws ++ c.saved b, ?_⟩
    rw [stepped_of_fault hf, hws, Board.writeAll_append]
  · refine ⟨ws, ?_⟩
    rw [stepped_eq_run fun f hf => h ⟨f, hf⟩, hws]

end Circuit

/-- **All that a step does to a board is to write words.** -/
theorem Gate.stepped_eq_writeAll (g : Gate) (b : Board) :
    ∃ ws, (g.stepped b).board = b.writeAll ws := by
  cases g with
  | cell c =>
    show ∃ ws, (c.stepped b).board = b.writeAll ws
    cases h : c.step b with
    | ok b' =>
      rw [Cell.stepped_of_ok h]
      obtain ⟨ws, rfl⟩ := Cell.step_eq_writeAll h
      exact ⟨_, rfl⟩
    | error e =>
      rw [Cell.stepped_of_error h]
      exact ⟨[], rfl⟩
  | circuit c => exact c.stepped_eq_writeAll b

/-! ## Boards that lie ahead -/

namespace Board

/-- Something that can happen to the pins of a board. -/
inductive Change where
  /-- A pin is asked for; one of an invalid width is not made. -/
  | place (s : Signal)
  /-- A value is written to a pin. -/
  | write (p : PinId) (v : Value)
  /-- A gate is stepped, whether the step goes through, faults or crashes. -/
  | step (g : Gate)

/-- The board after a change. -/
def change (b : Board) : Change → Board
  | .place s =>
    match Pin.ofSignal s with
    | .ok pin => b.place pin
    | .error _ => b
  | .write p v => b.write p v
  | .step g => (g.stepped b).board

/-- One board lies ahead of another if some changes lead to it. -/
def Reaches (b b' : Board) : Prop := ∃ cs : List Change, b' = cs.foldl change b

theorem Reaches.refl (b : Board) : b.Reaches b := ⟨[], rfl⟩

/-- What lies ahead of what lies ahead lies ahead. -/
theorem Reaches.trans {b b' b'' : Board} (h : b.Reaches b') (h' : b'.Reaches b'') : b.Reaches b'' := by
  obtain ⟨xs, rfl⟩ := h
  obtain ⟨ys, rfl⟩ := h'
  exact ⟨xs ++ ys, List.foldl_append.symm⟩

/-- One more change leads further ahead. -/
theorem Reaches.change {b b' : Board} (h : b.Reaches b') (x : Change) :
    b.Reaches (b'.change x) := by
  obtain ⟨cs, rfl⟩ := h
  exact ⟨cs ++ [x], by rw [List.foldl_append, List.foldl_cons, List.foldl_nil]⟩

/-- A new pin gets the next number. -/
theorem pin?_place (b : Board) (pin : Pin) (q : PinId) :
    (b.place pin).pin? q = if q = b.size then some pin else b.pin? q :=
  Array.getElem?_push

/-- A pin that was asked for holds zero, or was not made. -/
theorem change_place (b : Board) (s : Signal) :
    b.change (.place s) = b.place ⟨s, 0⟩ ∨ b.change (.place s) = b := by
  simp only [change, Pin.ofSignal]
  split
  next pin h =>
    split at h
    · obtain rfl : ⟨s, 0⟩ = pin := by simpa using h
      exact .inl rfl
    · cases h
  next => exact .inr rfl

/-- A pin that is there keeps its name and its width, whatever happens. -/
theorem signal?_change_of_lt {b : Board} {q : PinId} (x : Change) (hq : q < b.size) :
    (b.change x).signal? q = b.signal? q := by
  cases x with
  | place s =>
    rcases change_place b s with h | h
    · rw [h, signal?, pin?_place, if_neg (Nat.ne_of_lt hq), signal?]
    · rw [h]
  | write p v => exact signal?_write ..
  | step g =>
    obtain ⟨ws, hws⟩ := g.stepped_eq_writeAll b
    rw [change, hws, signal?_writeAll]

/-- On all boards ahead, a pin that is there has the name and the width that it has now. -/
theorem Reaches.signal?_of_lt {b b' : Board} (h : b.Reaches b') {q : PinId} (hq : q < b.size) :
    b'.signal? q = b.signal? q := by
  obtain ⟨cs, rfl⟩ := h
  induction cs generalizing b with
  | nil => rfl
  | cons x cs ih =>
    have hKept := signal?_change_of_lt x hq
    rw [List.foldl_cons, ih, hKept]
    rw [← signal?_isSome_iff, hKept, signal?_isSome_iff]
    exact hq

/-- **Words stay in range** whatever happens. -/
theorem InRange.change {b : Board} {q : PinId} (h : b.InRange q) (x : Change) :
    (b.change x).InRange q := by
  cases x with
  | place s =>
    rcases change_place b s with hPlace | hPlace
    · rw [hPlace, InRange, read, widthOf, pin?_place]
      split
      · -- a new pin holds zero
        exact fit_zero s.width
      · exact h
    · rw [hPlace]
      exact h
  | write p v => exact h.write p v
  | step g =>
    obtain ⟨ws, hws⟩ := g.stepped_eq_writeAll b
    rw [Board.change, hws]
    exact h.writeAll ws

/-- So a pin in range stays so on all boards ahead. -/
theorem InRange.reaches {b b' : Board} (h : b.Reaches b') {q : PinId} (hq : b.InRange q) :
    b'.InRange q := by
  obtain ⟨cs, rfl⟩ := h
  induction cs generalizing b with
  | nil => exact hq
  | cons x cs ih => exact ih (hq.change x)

end Board

end Breadboard
