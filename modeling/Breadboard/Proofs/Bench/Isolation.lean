import Breadboard.Proofs.Bench.Parts
import Breadboard.Proofs.Network.Passive
import Mathlib

/-!
# Breadboard — a part among others

A part that shares no pin with another one works as if it were alone: whatever else happens on the
bench — other parts are made and stepped, views are attached, complain and break down, listeners come and
go, start sending of their own and break down — its pins go through the same words, and its calls get the
same answers, as on a bench (`Bench.alone`) where there is nothing but its gate, with no display, no view
and nobody who listens.

* `Gate.answer` — what a call does to a board and what it is answered, as far as the gate goes.
* `board_perform_call`, `reply_perform_call` — on any bench, that is what the call does to the board, and
  what it is answered, but for a view that breaks down when it is shown the pins (`Reply.afterShow`).
* `Shadows` — **the simulation** of a bench by a gate alone, kept by every command
  (`Shadows.run_own`, `Shadows.run_other`) and so by every run (`Shadows.runAll`).
-/

namespace Breadboard

/-- What is done with a part itself. -/
inductive Call where
  | set (pin : String) (value : Value)
  | recompute
deriving DecidableEq

/-- The command that makes a call of the part that a handle stands for. -/
def Call.command (handle : String) : Call → Command
  | .set pin value => .set handle pin value
  | .recompute => .recompute handle

/-- Whether a command writes to a pin past the part that it belongs to. -/
def Command.pokes : Command → Bool
  | .poke .. => true
  | .pokePin .. => true
  | _ => false

-- ---------------------------------------------------------------------------
-- Calls of a gate
-- ---------------------------------------------------------------------------

/-- What a call of a gate is answered, and the board after it. -/
def Gate.answer (g : Gate) (b : Board) : Call → Reply × Board
  | .set pin v =>
    match b.find? g.inputs pin with
    | none => (.fault (.unknownPin g.name pin), b)
    | some p => (.done, b.write p v)
  | .recompute =>
    let done := g.stepped b
    (match done.outcome with
      | .ok () => .words (done.board.readAll g.outputs)
      | .error e => .ofFailure e, done.board)

/-- On boards that agree on its pins a gate gives the same answers, and leaves boards that do. -/
theorem Gate.answer_of_agreeOn {g : Gate} {b b' : Board} (h : Board.AgreeOn g.pins b b') (call : Call) :
    (g.answer b call).1 = (g.answer b' call).1 ∧
      Board.AgreeOn g.pins (g.answer b call).2 (g.answer b' call).2 := by
  cases call with
  | set pin v =>
    have hFind := h.find? (fun _ hq => g.mem_pins_of_input hq) pin
    simp only [answer, ← hFind]
    cases b.find? g.inputs pin with
    | none => exact ⟨rfl, h⟩
    | some p => exact ⟨rfl, h.write p v⟩
  | recompute =>
    -- a step writes the same words on both boards
    obtain ⟨hOutcome, ws, hBoard, hBoard', -⟩ := g.stepped_of_agreeOn h
    have hAfter : Board.AgreeOn g.pins (g.stepped b).board (g.stepped b').board := by
      rw [hBoard, hBoard']
      exact h.writeAll ws
    refine ⟨?_, hAfter⟩
    simp only [answer, ← hOutcome, hAfter.readAll fun _ hq => g.mem_pins_of_output hq]

/-- What is left of an answer when the pins have been shown to a view: where it breaks down, the caller is
told of that in place of the words of the outputs, and no other answer waits for the view. -/
def Reply.afterShow (crashes : Bool) : Reply → Reply
  | .words ws => if crashes then .crash else .words ws
  | reply => reply

theorem Reply.afterShow_false (reply : Reply) : reply.afterShow false = reply := by
  cases reply <;> rfl

/-- A step that fails shows nothing. -/
theorem Reply.afterShow_ofFailure (crashes : Bool) (e : Failure) :
    (Reply.ofFailure e).afterShow crashes = .ofFailure e := by
  cases e <;> rfl

namespace Bench

/-- The call that a command makes of the part with number `i`, if it makes one. -/
def callOf (b : Bench) (i : Nat) : Command → Option Call
  | .set handle pin v => (b.part? handle).bind fun it => if it.1 = i then some (.set pin v) else none
  | .recompute handle => (b.part? handle).bind fun it => if it.1 = i then some .recompute else none
  | _ => none

/-- The calls that some commands, one after the other, make of the part with number `i`. -/
def callsOf (i : Nat) : Bench → List Command → List Call
  | _, [] => []
  | b, c :: cs => (b.callOf i c).toList ++ callsOf i (b.run c).2 cs

/-- A gate on a bench of its own, with the board as it is: the part has no display, there is no view, and
nobody listens. -/
def alone (b : Bench) (gate : Gate) : Bench :=
  ((({ catalog := b.catalog, board := b.board } : Bench).install "alone" gate false).2)

-- ---------------------------------------------------------------------------
-- What a call does on a bench
-- ---------------------------------------------------------------------------

theorem views_noteAll (b : Bench) (ns : List Notice) : (b.noteAll ns).views = b.views := by
  induction ns generalizing b with
  | nil => rfl
  | cons it ns ih => exact ih (b.note it)

/-- Whether the view that is shown the pins of a part breaks down. -/
def viewCrashes (b : Bench) (part : Part) : Bool :=
  (b.audience part).any fun view => view.next.crashes

/-- Showing the pins fails if the view that is shown them breaks down. -/
theorem display_eq (b : Bench) (part : Part) :
    (b.display part).1 = if b.viewCrashes part then .error .crash else .ok () := by
  unfold display viewCrashes
  cases b.audience part with
  | none => rfl
  | some view => rfl

/-- **How stepping a part ends**: as the step of its gate does, unless that goes through and the view that
is shown the pins breaks down. -/
theorem recompute_eq (b : Bench) (i : Nat) (part : Part) :
    (b.recompute i part).1 =
      match (part.gate.stepped b.board).outcome with
      | .ok () => if b.viewCrashes part then .error .crash else .ok ()
      | .error e => .error e := by
  unfold recompute
  extract_lets b₁ done b₂
  -- by the time that the pins are shown only notices have come in between
  have hViews : b₂.views = b.views := views_noteAll _ done.notices
  have hSame : b₂.viewCrashes part = b.viewCrashes part := by
    rw [viewCrashes, viewCrashes, audience, audience, hViews]
  rw [show (part.gate.stepped b.board).outcome = done.outcome from rfl]
  cases done.outcome with
  | error e => cases e <;> rfl
  | ok u =>
    have hDisplay := display_eq b₂ part
    rw [hSame] at hDisplay
    dsimp only
    rw [← hDisplay]
    split
    next hEq => rw [hEq]
    next => rfl

/-- Stepping a part leaves the board that the step of its gate leaves. -/
theorem board_recompute {b : Bench} {handle : String} {i : Nat} {part : Part}
    (hPart : b.part? handle = some (i, part)) :
    (b.recompute i part).2.board = (part.gate.stepped b.board).board := by
  have hi : i < b.parts.size := (Array.getElem?_eq_some_iff.mp (part?_eq_some_iff.mp hPart).2).1
  exact (moves_recompute b hi part).board

/-- **What a call of a part does**: to the board what its gate does. -/
theorem board_perform_call {b : Bench} {handle : String} {i : Nat} {part : Part}
    (hPart : b.part? handle = some (i, part)) (call : Call) :
    (b.perform (call.command handle)).2.board = (part.gate.answer b.board call).2 := by
  cases call with
  | set pin v =>
    cases hFind : b.board.find? part.gate.inputs pin with
    | none => simp only [Call.command, perform, onPart, hPart, setInput, hFind, Gate.answer]
    | some p =>
      simp only [Call.command, perform, onPart, hPart, setInput, hFind, Gate.answer]
      -- a report of the value comes before the write, and leaves the board alone
      split
      · rfl
      · exact congrArg (·.write p v) (moves_reportLossy b part _).board
  | recompute =>
    simp only [Call.command, perform, onPart, hPart, Gate.answer]
    rw [← board_recompute hPart]
    split
    next b' hEq => rw [hEq]
    next e b' hEq => rw [hEq]

/-- **What a call of a part is answered**: what its gate answers, as far as the view lets it through. -/
theorem reply_perform_call {b : Bench} {handle : String} {i : Nat} {part : Part}
    (hPart : b.part? handle = some (i, part)) (call : Call) :
    (b.perform (call.command handle)).1 =
      (part.gate.answer b.board call).1.afterShow (b.viewCrashes part) := by
  cases call with
  | set pin v =>
    cases hFind : b.board.find? part.gate.inputs pin <;>
      simp only [Call.command, perform, onPart, hPart, setInput, hFind, Gate.answer] <;>
      rfl
  | recompute =>
    -- the outputs are read from the board as it is after the view
    have hBoard := board_recompute hPart
    have hEnds := recompute_eq b i part
    simp only [Call.command, perform, onPart, hPart, Gate.answer]
    rw [← hBoard]
    generalize b.recompute i part = result at hEnds
    obtain ⟨ends, b'⟩ := result
    obtain rfl := hEnds
    cases (part.gate.stepped b.board).outcome with
    | error e => exact (Reply.afterShow_ofFailure _ e).symm
    | ok u => cases b.viewCrashes part <;> rfl

-- ---------------------------------------------------------------------------
-- A gate alone
-- ---------------------------------------------------------------------------

/-- Handles, reporters and parts are the same but for the phase of a part. -/
structure Quiet (b b' : Bench) : Prop where
  handles : b'.network.handles = b.network.handles
  reporters : b'.network.reporters = b.network.reporters
  parts : ∀ i : Nat, b'.parts[i]?.map (fun p => { p with phase := .running }) =
    b.parts[i]?.map fun p => { p with phase := .running }

theorem Quiet.refl (b : Bench) : Quiet b b := ⟨rfl, rfl, fun _ => rfl⟩

theorem Quiet.trans {b b' b'' : Bench} (h : Quiet b b') (h' : Quiet b' b'') : Quiet b b'' :=
  ⟨h'.handles.trans h.handles, h'.reporters.trans h.reporters, fun i => (h'.parts i).trans (h.parts i)⟩

theorem quiet_noteAll (b : Bench) (ns : List Notice) : Quiet b (b.noteAll ns) := by
  induction ns generalizing b with
  | nil => exact .refl b
  | cons it ns ih =>
    have hNote : Quiet b (b.note it) := ⟨rfl, rfl, fun _ => rfl⟩
    exact hNote.trans (ih (b.note it))

/-- A reporter that nobody is registered with only has its sending noted. -/
theorem exists_announce_eq_said {n : Network} {r : ReporterId} (h : n.registrations r = [])
    (message : Option String) : ∃ new, n.announce r message = n.said new := by
  rw [Network.announce, Network.after_announce]
  cases hr : n.reporters[r]? with
  | none => exact ⟨[], (Network.said_nil n).symm⟩
  | some it =>
    have hNobody : it.registrations = [] := by simpa [Network.registrations, hr] using h
    simp only [hNobody, Network.after_offer_nil, Network.note_eq_said]
    exact ⟨_, Network.endCall_said_beginCall n r _⟩

/-- The handle `alone` stands for the only part, which has that gate, no display and nobody registered
with its reporter. -/
structure Alone (g : Gate) (b : Bench) : Prop where
  handle : ∃ r, b.network.object? "alone" = some (.part 0 r)
  part : ∃ part, b.parts[0]? = some part ∧ part.gate = g ∧ part.hasDisplay = false ∧
    b.network.registrations part.reporter = []

/-- A gate alone does not mind its phase, or what is on record. -/
theorem Alone.of_quiet {g : Gate} {b b' : Bench} (h : b.Alone g) (hQuiet : Quiet b b') : b'.Alone g := by
  obtain ⟨⟨r, hHandle⟩, part, hPart, hGate, hDisplay, hNobody⟩ := h
  refine ⟨⟨r, ?_⟩, ?_⟩
  · rwa [Network.object?, hQuiet.handles]
  · have hParts := hQuiet.parts 0
    rw [hPart, Option.map_some, Option.map_eq_some_iff] at hParts
    obtain ⟨part', hPart', hSame⟩ := hParts
    -- the phases may differ, so the parts are compared field by field
    cases part
    cases part'
    simp only [Part.mk.injEq] at hSame
    obtain ⟨rfl, rfl, rfl, rfl, -, rfl⟩ := hSame
    refine ⟨_, hPart', hGate, hDisplay, ?_⟩
    rwa [Network.registrations, hQuiet.reporters]

/-- The handle finds the part. -/
theorem Alone.part? {g : Gate} {b : Bench} (h : b.Alone g) :
    ∃ part, b.part? "alone" = some (0, part) ∧ part.gate = g ∧ part.hasDisplay = false ∧
      b.network.registrations part.reporter = [] := by
  obtain ⟨⟨r, hHandle⟩, part, hPart, hRest⟩ := h
  exact ⟨part, by simp only [Bench.part?, hHandle, hPart, Option.map_some], hRest⟩

/-- To announce something to nobody is quiet. -/
theorem quiet_announce {b : Bench} {r : ReporterId} (h : b.network.registrations r = [])
    (message : Option String) : Quiet b (b.withNetwork (·.announce r message)) := by
  obtain ⟨new, hSaid⟩ := exists_announce_eq_said h message
  have hNetwork : b.withNetwork (·.announce r message) = b.withNetwork (·.said new) := by
    simp only [withNetwork, hSaid]
  rw [hNetwork]
  exact ⟨rfl, rfl, fun _ => rfl⟩

/-- So is writing to an input when nobody listens. -/
theorem quiet_setInput {b b' : Bench} {part : Part} {pin : String} {v : Value}
    (h : b.setInput part pin v = (.ok (), b')) (hNobody : b.network.registrations part.reporter = []) :
    Quiet b b' := by
  obtain ⟨p, -, rfl⟩ := setInput_eq_ok h
  split
  · exact ⟨rfl, rfl, fun _ => rfl⟩
  · -- the value does not fit, and nobody hears of it
    generalize lossyMessage v (b.board.widthOf p) pin = message
    have hSent := quiet_announce (b := b.note (.lossyWrite part.name message)) hNobody (some message)
    exact ⟨hSent.handles, hSent.reporters, fun _ => rfl⟩

/-- Stepping a part that has no display and that nobody listens to. -/
theorem quiet_recompute {b : Bench} {i : Nat} {part : Part} (hDisplay : part.hasDisplay = false)
    (hNobody : b.network.registrations part.reporter = []) : Quiet b (b.recompute i part).2 := by
  unfold recompute
  extract_lets b₁ done b₂
  have hPhase : Quiet b { b₁ with board := done.board } := by
    refine ⟨rfl, rfl, fun j => ?_⟩
    simp only [b₁, Array.getElem?_modify]
    split <;> cases b.parts[j]? <;> rfl
  have hStepped : Quiet b b₂ := hPhase.trans (quiet_noteAll _ done.notices)
  -- as the reporters are the same, still nobody listens
  have hStill : b₂.network.registrations part.reporter = [] := by
    rwa [Network.registrations, hStepped.reporters]
  split
  next f _ =>
    have hNote : Quiet b₂ (b₂.note (.partFaulted part.name f)) := ⟨rfl, rfl, fun _ => rfl⟩
    exact (hStepped.trans hNote).trans (quiet_announce (b := b₂.note _) hStill _)
  next => exact hStepped
  next =>
    have hNone : b₂.display part = (.ok (), b₂) := by
      simp [display, audience, hDisplay]
    rw [hNone]
    exact hStepped.trans ⟨rfl, rfl, fun _ => rfl⟩

/-- A gate that is alone stays so, whatever calls are made of it. -/
theorem Alone.perform_call {g : Gate} {b : Bench} (h : b.Alone g) (call : Call) :
    (b.perform (call.command "alone")).2.Alone g := by
  obtain ⟨part, hPart, -, hDisplay, hNobody⟩ := h.part?
  refine h.of_quiet ?_
  cases call with
  | set pin v =>
    simp only [Call.command, perform, onPart, hPart]
    split
    next b' hSet => exact quiet_setInput hSet hNobody
    next b' hSet =>
      obtain ⟨-, -, rfl⟩ := setInput_eq_error hSet
      exact .refl _
  | recompute =>
    have hStepped := quiet_recompute (i := 0) hDisplay hNobody
    simp only [Call.command, perform, onPart, hPart]
    split
    all_goals
      rename_i hEq
      rw [hEq] at hStepped
      exact hStepped

/-- Alone, a gate gives its answers undisturbed. -/
theorem Alone.reply_perform_call {g : Gate} {b : Bench} (h : b.Alone g) (call : Call) :
    (b.perform (call.command "alone")).1 = (g.answer b.board call).1 := by
  obtain ⟨part, hPart, rfl, hDisplay, -⟩ := h.part?
  have hNone : b.viewCrashes part = false := by simp [viewCrashes, audience, hDisplay]
  rw [Bench.reply_perform_call hPart, hNone, Reply.afterShow_false]

theorem Alone.board_perform_call {g : Gate} {b : Bench} (h : b.Alone g) (call : Call) :
    (b.perform (call.command "alone")).2.board = (g.answer b.board call).2 := by
  obtain ⟨part, hPart, rfl, -⟩ := h.part?
  exact Bench.board_perform_call hPart call

/-- The bench that a gate has to itself is as it should be. -/
theorem alone_alone (b : Bench) (g : Gate) : (b.alone g).Alone g where
  handle := ⟨0, by
    simp [alone, install, addPart, addReporter, takeId, Bench.bind, release, withNetwork, Network.object?]⟩
  part := ⟨_, rfl, rfl, rfl, rfl⟩

-- ---------------------------------------------------------------------------
-- The simulation
-- ---------------------------------------------------------------------------

/-- The part with number `i` has that gate, which is on the board and alone on another bench, where its
pins are the same. -/
structure Shadows (i : Nat) (g : Gate) (b s : Bench) : Prop where
  gate : b.gates[i]? = some g
  onBoard : ∀ p ∈ g.pins, p < b.board.size
  agree : Board.AgreeOn g.pins b.board s.board
  alone : s.Alone g

/-- Who is apart from more parts is apart from fewer. -/
theorem ApartFrom.of_extends {i : Nat} {g : Gate} {ps : List PinId} {new : List Gate} {b b' : Bench}
    (h : ApartFrom i g b') (hExtends : Extends ps new b b') : ApartFrom i g b := by
  intro j g' hj hGate
  exact h j g' hj (getElem?_gates_of_extends hExtends hGate)

/-- A call of a part is made by a command on a handle that stands for it. -/
theorem exists_of_callOf {b : Bench} {i : Nat} {c : Command} {call : Call} (h : b.callOf i c = some call) :
    ∃ handle part, b.part? handle = some (i, part) ∧ c = call.command handle := by
  cases c with
  | set handle _ _ | recompute handle =>
    obtain ⟨⟨j, part⟩, hPart, hCall⟩ := Option.bind_eq_some_iff.mp h
    split at hCall
    next hj =>
      cases hCall
      exact ⟨handle, part, hj ▸ hPart, rfl⟩
    next => cases hCall
  | _ => cases h

theorem Shadows.gate_eq {i : Nat} {g : Gate} {b s : Bench} (h : Shadows i g b s) {handle : String}
    {part : Part} (hPart : b.part? handle = some (i, part)) : part.gate = g := by
  have hSame := h.gate
  rw [gates_getElem?, (part?_eq_some_iff.mp hPart).2, Option.map_some, Option.some.injEq] at hSame
  exact hSame

/-- A call of the part itself is made of the gate alone too. -/
theorem Shadows.run_own {i : Nat} {g : Gate} {b s : Bench} (h : Shadows i g b s) {c : Command} {call : Call}
    (hCall : b.callOf i c = some call) :
    Shadows i g (b.run c).2 (s.run (call.command "alone")).2 := by
  obtain ⟨handle, part, hPart, rfl⟩ := exists_of_callOf hCall
  obtain ⟨new, hExtends⟩ := extends_run b (call.command handle)
  have hAlone : s.cleared.Alone g := h.alone.of_quiet ⟨rfl, rfl, fun _ => rfl⟩
  refine ⟨getElem?_gates_of_extends hExtends h.gate, fun p hp => ?_, ?_, hAlone.perform_call call⟩
  · exact Nat.lt_of_lt_of_le (h.onBoard p hp) hExtends.size_le
  · -- both benches do to their boards what the gate does
    have hBoard : (b.run (call.command handle)).2.board = (g.answer b.board call).2 :=
      h.gate_eq hPart ▸ board_perform_call (b := b.cleared) hPart call
    have hBoard' : (s.run (call.command "alone")).2.board = (g.answer s.board call).2 :=
      hAlone.board_perform_call call
    rw [hBoard, hBoard']
    exact (g.answer_of_agreeOn h.agree call).2

/-- Another part has other pins. -/
theorem ApartFrom.not_mem_pinsOf {i : Nat} {g : Gate} {b : Bench} (h : ApartFrom i g b) {handle : String}
    (hOther : ∀ part, b.part? handle ≠ some (i, part)) {p : PinId} (hp : p ∈ g.pins) :
    p ∉ b.pinsOf handle := by
  unfold pinsOf
  cases hPart : b.part? handle with
  | none => simp
  | some it =>
    obtain ⟨j, part⟩ := it
    have hj : j ≠ i := fun hEq => hOther part (hEq ▸ hPart)
    have hGate : b.gates[j]? = some part.gate := by
      rw [gates_getElem?, (part?_eq_some_iff.mp hPart).2, Option.map_some]
    exact h j part.gate hj hGate hp

/-- A command that is no call of the part writes to none of its pins. -/
theorem ApartFrom.not_mem_operated {i : Nat} {g : Gate} {b : Bench} (h : ApartFrom i g b) {c : Command}
    (hCall : b.callOf i c = none) (hPokes : c.pokes = false) {p : PinId} (hp : p ∈ g.pins) :
    p ∉ b.operated c := by
  cases c with
  -- a call of another part operates the pins of that one
  | set handle _ _ | recompute handle =>
    refine h.not_mem_pinsOf (fun part hPart => ?_) hp
    simp [callOf, hPart] at hCall
  | poke | pokePin => cases hPokes
  | _ => exact List.not_mem_nil

/-- Whatever else is done leaves the pins of the part alone. -/
theorem Shadows.run_other {i : Nat} {g : Gate} {b s : Bench} (h : Shadows i g b s) {c : Command}
    (hCall : b.callOf i c = none) (hPokes : c.pokes = false) (hApart : ApartFrom i g b) :
    Shadows i g (b.run c).2 s := by
  obtain ⟨new, hExtends⟩ := extends_run b c
  refine ⟨getElem?_gates_of_extends hExtends h.gate, fun p hp => ?_, fun p hp => ?_, h.alone⟩
  · exact Nat.lt_of_lt_of_le (h.onBoard p hp) hExtends.size_le
  · rw [hExtends.pin? p (h.onBoard p hp) (hApart.not_mem_operated hCall hPokes hp)]
    exact h.agree p hp

/-- Who is apart in the end was so all along, since parts are never taken away. -/
theorem ApartFrom.of_runAll {i : Nat} {g : Gate} {b : Bench} {cs : List Command}
    (h : ApartFrom i g (b.runAll cs)) : ApartFrom i g b := by
  induction cs generalizing b with
  | nil => exact h
  | cons c cs ih =>
    obtain ⟨new, hExtends⟩ := extends_run b c
    exact ApartFrom.of_extends (ih h) hExtends

/-- **The gate alone follows the part** through every run. -/
theorem Shadows.runAll {i : Nat} {g : Gate} {b s : Bench} (h : Shadows i g b s) {cs : List Command}
    (hPokes : ∀ c ∈ cs, c.pokes = false) (hApart : ApartFrom i g (b.runAll cs)) :
    Shadows i g (b.runAll cs) (s.runAll ((callsOf i b cs).map (Call.command "alone"))) := by
  induction cs generalizing b s with
  | nil => exact h
  | cons c cs ih =>
    rw [List.forall_mem_cons] at hPokes
    rw [callsOf]
    -- the gate alone takes a step only for a call of its own
    cases hCall : b.callOf i c with
    | none => exact ih (h.run_other hCall hPokes.1 hApart.of_runAll) hPokes.2 hApart
    | some call => exact ih (h.run_own hCall) hPokes.2 hApart

/-- A call of the part is answered as the gate alone answers it, as far as the view lets it through. -/
theorem Shadows.reply {i : Nat} {g : Gate} {b s : Bench} (h : Shadows i g b s) {c : Command} {call : Call}
    (hCall : b.callOf i c = some call) :
    ∃ part, b.parts[i]? = some part ∧
      (b.run c).1 = (s.run (call.command "alone")).1.afterShow (b.viewCrashes part) := by
  obtain ⟨handle, part, hPart, rfl⟩ := exists_of_callOf hCall
  have hAlone : s.cleared.Alone g := h.alone.of_quiet ⟨rfl, rfl, fun _ => rfl⟩
  have hReply : (b.run (call.command handle)).1 =
      (part.gate.answer b.board call).1.afterShow (b.viewCrashes part) :=
    reply_perform_call (b := b.cleared) hPart call
  have hReply' : (s.run (call.command "alone")).1 = (g.answer s.board call).1 :=
    hAlone.reply_perform_call call
  refine ⟨part, (part?_eq_some_iff.mp hPart).2, ?_⟩
  -- on boards that agree the gate answers the same
  rw [hReply, hReply', h.gate_eq hPart, (g.answer_of_agreeOn h.agree call).1]

/--
**A part among others works as if it were alone.**

* Let a part be on the board, and let commands be run after which it shares no pin with another part, none
  of them a poke. Then its pins are those of its gate on a bench of its own after the calls that the
  commands make of the part; and the next call of it is answered as there, but that a view that breaks
  down when it is shown the pins takes the place of the outputs of a step.
* A part that is made by any command but wiring is on the board and never shares a pin with another part,
  whatever commands come before and after.
-/
theorem part_runs_as_if_alone :
    (∀ (b : Bench) (i : Nat) (part : Part) (cs : List Command),
      b.parts[i]? = some part →
      (∀ p ∈ part.gate.pins, p < b.board.size) →
      (∀ c ∈ cs, c.pokes = false) →
      (∀ j other, j ≠ i → (b.runAll cs).parts[j]? = some other →
        part.gate.pins.Disjoint other.gate.pins) →
      (∀ p ∈ part.gate.pins, (b.runAll cs).board.pin? p =
        ((b.alone part.gate).runAll ((callsOf i b cs).map (Call.command "alone"))).board.pin? p) ∧
      ∀ c call, (b.runAll cs).callOf i c = some call →
        ∃ now, (b.runAll cs).parts[i]? = some now ∧
          ((b.runAll cs).run c).1 =
            (((b.alone part.gate).runAll ((callsOf i b cs).map (Call.command "alone"))).run
              (call.command "alone")).1.afterShow ((b.runAll cs).viewCrashes now)) ∧
    ∀ (catalog : Catalog) (before : List Command) (c : Command) (after : List Command)
      (i : Nat) (part : Part), c.wires = false →
      (runAll { catalog } before).parts.size ≤ i →
      (runAll { catalog } (before ++ [c])).parts[i]? = some part →
      (∀ p ∈ part.gate.pins, p < (runAll { catalog } (before ++ [c])).board.size) ∧
        ∀ j other, j ≠ i → (runAll { catalog } (before ++ [c] ++ after)).parts[j]? = some other →
          part.gate.pins.Disjoint other.gate.pins := by
  refine ⟨fun b i part cs hPart hBoard hPokes hApart => ?_,
    fun catalog before c after i part hWires hi hPart => ?_⟩
  · -- the gate alone starts on the same board, and follows
    have hStart : Shadows i part.gate b (b.alone part.gate) :=
      ⟨by rw [gates_getElem?, hPart, Option.map_some], hBoard, .refl _ _, alone_alone b part.gate⟩
    have hEnd : ApartFrom i part.gate (b.runAll cs) := by
      intro j g' hj hGate
      rw [gates_getElem?, Option.map_eq_some_iff] at hGate
      obtain ⟨other, hOther, rfl⟩ := hGate
      exact hApart j other hj hOther
    have hShadows := hStart.runAll hPokes hEnd
    exact ⟨hShadows.agree, fun c call hCall => hShadows.reply hCall⟩
  · -- a part on new pins is sheltered from all that comes after
    have hOnBoard := (onBoard_empty catalog).runAll before
    obtain ⟨new, hBuilds⟩ := builds_run (runAll { catalog } before) hWires
    rw [runAll_append] at hPart ⊢
    have hGate : ((runAll { catalog } before).run c).2.gates[i]? = some part.gate := by
      rw [gates_getElem?]
      exact congrArg (Option.map Part.gate) hPart
    have hLength : (runAll { catalog } before).gates.length ≤ i := by
      rwa [gates, List.length_map, Array.length_toList]
    have hSheltered := sheltered_of_builds hOnBoard hBuilds hLength hGate
    refine ⟨hSheltered.onBoard, fun j other hj hOther => ?_⟩
    refine (hSheltered.runAll after).apart j other.gate hj ?_
    rw [runAll_append, runAll_append] at hOther
    rw [gates_getElem?]
    exact congrArg (Option.map Part.gate) hOther

/-- A catalog of inverters. -/
def inverters : Catalog := Catalog.empty.register "Not" Chip.not

/-- An inverter with a display. -/
def inverter : Bench :=
  runAll { catalog := inverters } [.part "left" "Not" true]

/-- Another inverter next to it, a listener that breaks down, and a view that complains, lets go of the
listener and breaks down. -/
def crowd : List Command :=
  [.view "screen" false none true [⟨[.act (.notify "left" none), .release "ann"], some "dim", true⟩],
    .attach "left" "screen", .listener "ann" true [], .add "left" "ann",
    .part "right" "Not" false, .set "left" "in" 1, .set "right" "in" 1, .recompute "left",
    .recompute "right"]

/-- The view breaks down whenever it is shown the pins, and yet they are those of the gate alone, and the
next step fails for the view only. -/
theorem part_runs_as_if_alone_crowded :
    ∃ part, inverter.parts[0]? = some part ∧
      (∀ p ∈ part.gate.pins, (inverter.runAll crowd).board.pin? p =
        ((inverter.alone part.gate).runAll [.set "alone" "in" 1, .recompute "alone"]).board.pin? p) ∧
      (inverter.runAll crowd).callOf 0 (.recompute "left") = some .recompute ∧
      ((inverter.runAll crowd).run (.recompute "left")).1 = .crash ∧
      ((inverter.runAll crowd).run (.recompute "left")).1 =
        (((inverter.alone part.gate).runAll [.set "alone" "in" 1, .recompute "alone"]).run
          (.recompute "alone")).1.afterShow true := by
  obtain ⟨hAsAlone, hOwnPins⟩ := part_runs_as_if_alone
  obtain ⟨part, hPart⟩ : ∃ part, inverter.parts[0]? = some part :=
    Option.isSome_iff_exists.mp (by decide +kernel)
  have hOwn := hOwnPins inverters [] (.part "left" "Not" true) crowd 0 part rfl (Nat.le_refl 0)
  rw [runAll_append _ ([] ++ _), List.nil_append, ← inverter] at hOwn
  obtain ⟨hBoard, hApart⟩ := hOwn hPart
  have hPokes : ∀ c ∈ crowd, c.pokes = false := by decide
  have hCalls : callsOf 0 inverter crowd = [.set "in" 1, .recompute] := by cbv
  have hCall : (inverter.runAll crowd).callOf 0 (.recompute "left") = some .recompute := by cbv
  obtain ⟨hPins, hReplies⟩ := hAsAlone inverter 0 part crowd hPart hBoard hPokes hApart
  obtain ⟨now, hNow, hReply⟩ := hReplies _ _ hCall
  have hCrashes : (inverter.runAll crowd).parts[0]?.map (inverter.runAll crowd).viewCrashes = some true := by
    cbv
  have hReplied : ((inverter.runAll crowd).run (.recompute "left")).1 = .crash := by cbv
  rw [hNow, Option.map_some, Option.some.injEq] at hCrashes
  rw [hCalls] at hPins hReply
  rw [hCrashes] at hReply
  exact ⟨part, hPart, hPins, hCall, hReplied, hReply⟩

end Bench

end Breadboard
