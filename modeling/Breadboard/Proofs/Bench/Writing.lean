import Breadboard.Proofs.Bench.Attendance
import Breadboard.Proofs.Circuit.Range
import Breadboard.Proofs.Network.Delivery

/-!
# Breadboard — writing to an input

A value that is set on an input of a part goes to the first input of that name, cut to the width of the pin.
What is stored is the residue of the value (`Residue`), whatever the value is; whether the part's listeners
are notified depends on whether the residue still denotes it (`Denotes`). The first is a mask and two
changes of type in the program, the second a comparison; that they belong together is
`fit_eq_iff_residue` and `fits_iff_denotes`.

Listeners may do anything when they are notified. `Network.Notifies` says what a notification is all the
same: everyone who is registered has its turn, and hears the event if alive then. It always leaves something
on the trace, since what has been said stays said (`Network.saysOn_after`). So to be notified and not to be
are two things (`Network.Notifies.length_lt`).

`Bench.set_wraps_and_notifies` is the whole statement.
-/

namespace Breadboard

namespace Network

-- ---------------------------------------------------------------------------
-- What has been said stays said
-- ---------------------------------------------------------------------------

/-- All that is on the trace of `n` is on that of `n'`, which may go on from there. -/
def SaysOn (n n' : Network) : Prop :=
  n.trace.toList <+: n'.trace.toList

theorem SaysOn.trans {n n' n'' : Network} (h : SaysOn n n') (h' : SaysOn n' n'') : SaysOn n n'' :=
  List.IsPrefix.trans h h'

/-- What is on the trace stays there. -/
theorem SaysOn.mem {n n' : Network} (h : SaysOn n n') {x : Entry} (hx : x ∈ n.trace) : x ∈ n'.trace :=
  Array.mem_toList_iff.mp (h.subset (Array.mem_toList_iff.mpr hx))

theorem saysOn_emit (n : Network) (x : Entry) : SaysOn n (n.emit x) := by
  rw [SaysOn, emit, Array.toList_push]
  exact List.prefix_append ..

/-- No step takes anything off the trace … -/
theorem saysOn_touched (n : Network) (touch : Touch) : SaysOn n (n.touched touch) := by
  cases touch with
  | entry x | begin l x => exact saysOn_emit n x
  | depart r x => exact saysOn_emit (n.beginCall r) x
  | drop handle t => cases t <;> exact List.prefix_rfl
  | _ => exact List.prefix_rfl

/-- … nor do steps in a row. -/
theorem Machine.Visits.saysOn {m m' : Machine} {ms : List Machine} (h : Visits m ms m') :
    SaysOn m.network m'.network := by
  induction h with
  | refl => exact List.prefix_rfl
  | @step m _ _ _ ih =>
    have hStep := saysOn_touched m.network m.touch
    rw [← step_network] at hStep
    exact hStep.trans ih

/-- Fan-out only ever adds to the trace. -/
theorem saysOn_after (n : Network) (task : Task) : SaysOn n (n.after task) := by
  obtain ⟨ms, hVisits, -⟩ := exists_visits n task []
  exact hVisits.saysOn

theorem saysOn_contain (n : Network) (name : String) (crashed : Bool) :
    SaysOn n (n.contain name crashed) := by
  unfold contain
  split
  · exact saysOn_emit n _
  · exact List.prefix_rfl

/-- What was said before a turn has been said after it. -/
theorem Turn.saysOn_left (c : Turn) (name : String) : SaysOn c.network (c.left name) := by
  unfold Turn.left
  split
  · exact (saysOn_after c.network (.tell c.target c.event)).trans (saysOn_contain c.told name _)
  · exact List.prefix_rfl

/-- What was said when a turn was over has been said when the walk is. -/
theorem saysOn_of_chain {name : String} {n n' : Network} {turns : List Turn}
    (hChain : n :: turns.map (Turn.left name) = turns.map Turn.network ++ [n']) :
    SaysOn n n' ∧ ∀ c ∈ turns, SaysOn (c.left name) n' := by
  induction turns generalizing n with
  | nil =>
    obtain rfl : n = n' := by simpa using hChain
    exact ⟨List.prefix_rfl, by simp⟩
  | cons c turns ih =>
    rw [List.map_cons, List.map_cons, List.cons_append, List.cons.injEq] at hChain
    obtain ⟨rfl, hRest⟩ := hChain
    obtain ⟨hOn, hTurns⟩ := ih hRest
    exact ⟨(c.saysOn_left name).trans hOn, List.forall_mem_cons.mpr ⟨hOn, hTurns⟩⟩

-- ---------------------------------------------------------------------------
-- Notifying
-- ---------------------------------------------------------------------------

/-- **A reporter notifies those who are registered with it of an event.** It walks the list as it stands:
each registration has its turn in order, and who is alive then is told, with all that follows. A listener
that is told hears the event. With the last turn the reporter is back from its walk. -/
structure Notifies (n : Network) (r : ReporterId) (e : Event) (turns : List Turn) (n' : Network) :
    Prop where
  targets : turns.map Turn.target = n.registrations r
  events : ∀ c ∈ turns, c.event = e
  chain : ∃ last, (n.beginCall r).note (.delivering e.sourceName (n.registrations r).length e.isClear) ::
      turns.map (Turn.left e.sourceName) = turns.map Turn.network ++ [last] ∧
    n' = last.endCall r
  heard : ∀ c ∈ turns, c.alive = true → ∀ l it, c.target = .listener l →
    c.network.listeners[l]? = some it → .heard it.handle e ∈ n'.trace

/-- The first thing that a listener does is to hear the event. -/
theorem saysOn_tell_listener {n : Network} {l : ListenerId} {it : Listener}
    (hl : n.listeners[l]? = some it) (e : Event) :
    SaysOn (n.emit (.heard it.handle e)) (n.after (.tell (.listener l) e)) := by
  rw [after_tell_listener, hl]
  dsimp only
  split
  next => exact List.prefix_rfl
  next response _ _ =>
    exact saysOn_after ((n.emit (.heard it.handle e)).beginHearing l) (.perform response.deeds)

/-- A listener that was told at its turn has heard the event. -/
theorem Turn.heard_of_saysOn {c : Turn} {name : String} {n' : Network} (h : SaysOn (c.left name) n')
    (hAlive : c.alive = true) {l : ListenerId} {it : Listener} (hTarget : c.target = .listener l)
    (hl : c.network.listeners[l]? = some it) : .heard it.handle c.event ∈ n'.trace := by
  have hHeard : Entry.heard it.handle c.event ∈ (c.network.emit (.heard it.handle c.event)).trace :=
    Array.mem_push_self
  have hTold := saysOn_tell_listener hl c.event
  rw [← hTarget] at hTold
  have hLeft : c.left name = c.told.contain name (c.network.crashes c.target) := if_pos hAlive
  rw [hLeft] at h
  exact (hTold.trans ((saysOn_contain c.told name _).trans h)).mem hHeard

/-- To announce a message is to notify, under the identity and the name of the reporter. -/
theorem exists_notifies {n : Network} {r : ReporterId} {source : Ident} {name : String}
    (hVoice : n.voices[r]? = some (source, name)) (message : Option String) :
    ∃ turns, Notifies n r ⟨source, name, message⟩ turns (n.announce r message) := by
  rw [voices, List.getElem?_map] at hVoice
  obtain ⟨it, hr, hEq⟩ := Option.map_eq_some_iff.mp hVoice
  obtain ⟨rfl, rfl⟩ := Prod.mk.inj hEq
  have hTargets : n.registrations r = it.registrations := by rw [registrations, hr, Option.elim_some]
  -- the delivery says who has its turn, and what each turn leaves
  obtain ⟨walk, ms, turns, last, h⟩ := exists_delivers hr message []
  obtain ⟨-, hOn⟩ := saysOn_of_chain h.chain
  refine ⟨turns, hTargets ▸ h.walks.targets, h.walks.events, ⟨last, hTargets ▸ h.chain, h.back⟩,
    fun c hc hAlive l hearer hTarget hl => ?_⟩
  -- what was heard by the end of the walk has been heard when the reporter is back
  rw [← h.walks.events c hc, h.back]
  exact Turn.heard_of_saysOn (hOn c hc) hAlive hTarget hl

/-- Who notifies leaves more on the trace than there was. -/
theorem Notifies.length_lt {n n' : Network} {r : ReporterId} {e : Event} {turns : List Turn}
    (h : Notifies n r e turns n') : n.trace.size < n'.trace.size := by
  obtain ⟨last, hChain, rfl⟩ := h.chain
  obtain ⟨hOn, -⟩ := saysOn_of_chain hChain
  have hLe := hOn.length_le
  simp only [note, emit, Array.length_toList, Array.size_push] at hLe
  exact hLe

end Network

namespace Bench

/-- **What writing `v` to the pin `p` does.** The pin `held` keeps its name and its width and holds the
word `x`, which is what is left of the value in that many bits; all other pins are as before. The listeners
of the part are notified exactly if `x` does not denote the value, and the write is recorded after that; if
it does, nothing is said at all, and the write is the one thing on record. -/
structure Writes (b b' : Bench) (part : Part) (pin : String) (v : Value) (p : PinId) (held : Pin)
    (x : Word) : Prop where
  before : b.board.pin? p = some held
  width : 1 ≤ held.width ∧ held.width ≤ 16
  after : b'.board.pin? p = some { held with value := x }
  residue : ∀ y, y = x ↔ Residue v held.width y
  others : ∀ q ≠ p, b'.board.pin? q = b.board.pin? q
  kept : b' = { b with board := b'.board, network := b'.network }
  silent : Denotes x held.width v → b'.network = b.cleared.network.note (.pinWritten p v)
  notified : (∃ turns told, (b.cleared.network.note
      (.lossyWrite part.name (lossyMessage v held.width pin))).Notifies part.reporter
        ⟨part.id, part.name, some (lossyMessage v held.width pin)⟩ turns told ∧
      b'.network = told.note (.pinWritten p v)) ↔
    ¬ Denotes x held.width v

section Writing

variable {b : Bench} {handle : String} {i : Nat} {part : Part} {pin : String} {v : Value} {p : PinId}
  {held : Pin}

/-- Setting an input of a part is writing to it, from an empty trace. -/
theorem run_set_of_ok (hPart : b.part? handle = some (i, part)) {b' : Bench}
    (hSet : b.cleared.setInput part pin v = (.ok (), b')) :
    b.run (.set handle pin v) = (.done, b') := by
  have hFound : b.cleared.part? handle = some (i, part) := hPart
  show b.cleared.perform (.set handle pin v) = _
  simp only [perform, onPart, hFound, hSet]

theorem run_set_of_error (hPart : b.part? handle = some (i, part)) {f : Fault}
    (hSet : b.cleared.setInput part pin v = (.error f, b.cleared)) :
    b.run (.set handle pin v) = (.fault f, b.cleared) := by
  have hFound : b.cleared.part? handle = some (i, part) := hPart
  show b.cleared.perform (.set handle pin v) = _
  simp only [perform, onPart, hFound, hSet]

/-- **A write, and the report before it if one is due**, do what they should. -/
theorem writes_reported (hVoice : b.network.voices[part.reporter]? = some (part.id, part.name))
    (hPin : b.board.pin? p = some held) (hWidth : 1 ≤ held.width ∧ held.width ≤ 16) :
    b.Writes ((b.cleared.reported part pin v p).writePin p v) part pin v p held (fit v held.width) := by
  have hLe : held.width.toNat ≤ 16 := UInt8.le_iff_toNat_le.mp hWidth.2
  have hWidthOf : b.cleared.board.widthOf p = held.width := by
    show b.board.widthOf p = held.width
    rw [Board.widthOf, hPin, Option.elim_some]
  have hBoard : ((b.cleared.reported part pin v p).writePin p v).board = b.board.write p v := by
    rw [reported_eq]
    rfl
  -- whether a report is due is whether the value fits, which is whether it is denoted
  have hSilent : Denotes (fit v held.width) held.width v →
      (b.cleared.reported part pin v p).network = b.cleared.network := by
    intro hDenotes
    rw [reported, hWidthOf, if_pos ((fits_iff_denotes hLe).mpr hDenotes)]
  refine
    { before := hPin
      width := hWidth
      after := ?_
      residue := fun y => eq_comm.trans (fit_eq_iff_residue hLe)
      others := fun q hq => ?_
      kept := ?_
      silent := fun hDenotes => congrArg (·.note (.pinWritten p v)) (hSilent hDenotes)
      notified := ⟨?_, fun hNot => ?_⟩ }
  · rw [hBoard, Board.pin?_write, if_pos rfl, hPin]
    rfl
  · rw [hBoard, Board.pin?_write_of_ne hq.symm v]
  · rw [reported_eq]
    rfl
  · -- were the value denoted, nothing would have been added to the trace
    rintro ⟨turns, told, hNotifies, hTold⟩ hDenotes
    have hLt := hNotifies.length_lt
    have hSize : ((b.cleared.reported part pin v p).network.note (.pinWritten p v)).trace.size =
        (told.note (.pinWritten p v)).trace.size :=
      congrArg (fun n : Network => n.trace.size) hTold
    rw [hSilent hDenotes] at hSize
    simp only [Network.note, Network.emit, Array.size_push] at hLt hSize
    omega
  · -- the value is not denoted, so a report is due, and a report notifies
    have hLossy : ¬ fits v held.width = true := fun hFits => hNot ((fits_iff_denotes hLe).mp hFits)
    rw [reported, hWidthOf, if_neg hLossy]
    obtain ⟨turns, hNotifies⟩ := Network.exists_notifies
      (n := b.cleared.network.note (.lossyWrite part.name (lossyMessage v held.width pin))) hVoice
      (some (lossyMessage v held.width pin))
    exact ⟨turns, _, hNotifies, rfl⟩

end Writing

/--
**A write keeps what the pin can hold, and whoever listens is notified if that is not the value.** Take any
part on a bench on which anything has been done before, any name and any value.

* If no input has that name, the fault says so; nothing is said to anybody, and no pin changes.
* Otherwise the first input of that name is written (`Writes`).
-/
theorem set_wraps_and_notifies {catalog : Catalog} {before : List Command} {b : Bench}
    (hb : runAll { catalog } before = b) {handle : String} {i : Nat} {part : Part}
    (hPart : b.part? handle = some (i, part)) (pin : String) (v : Value) :
    ((∀ p ∈ part.gate.inputs, b.board.nameOf p ≠ pin) →
      b.run (.set handle pin v) = (.fault (.unknownPin part.name pin), b.cleared)) ∧
    ∀ others p rest, part.gate.inputs = others ++ p :: rest → b.board.nameOf p = pin →
      (∀ q ∈ others, b.board.nameOf q ≠ pin) →
      ∃ b' held x, b.run (.set handle pin v) = (.done, b') ∧ b.Writes b' part pin v p held x := by
  subst hb
  have hSpeaks := (speaks_empty catalog).runAll before
  have hOnBoard := (onBoard_empty catalog).runAll before
  have hReach : Board.empty.Reaches (runAll { catalog } before).board := reaches_runAll { catalog } before
  generalize runAll { catalog } before = b at *
  refine ⟨fun hNone => run_set_of_error hPart ?_, fun others p rest hInputs hName hOthers => ?_⟩
  · have hFind : b.cleared.board.find? part.gate.inputs pin = none := by
      show b.board.find? part.gate.inputs pin = none
      rw [Board.find?, List.find?_eq_none]
      simpa using hNone
    rw [setInput, hFind]
  · have hFind : b.cleared.board.find? part.gate.inputs pin = some p := by
      show b.board.find? part.gate.inputs pin = some p
      rw [Board.find?, List.find?_eq_some_iff_append]
      exact ⟨by simpa using hName, others, rest, hInputs, by simpa using hOthers⟩
    -- the pin is on the board, and proper as all pins are
    have hParts := (part?_eq_some_iff.mp hPart).2
    have hMem : part.gate ∈ b.gates := by
      apply List.mem_of_getElem? (i := i)
      rw [gates_getElem?, hParts, Option.map_some]
    have hLt : p < b.board.size :=
      hOnBoard.gates _ hMem p (Gate.mem_pins_of_input (List.mem_of_find?_eq_some hFind))
    obtain ⟨held, hPin⟩ : ∃ held, b.board.pin? p = some held := ⟨_, Array.getElem?_eq_getElem hLt⟩
    have hWidth := (Board.proper_of_reaches hReach hPin).width
    exact ⟨_, held, _, run_set_of_ok hPart (setInput_eq hFind),
      writes_reported (hSpeaks i part hParts) hPin hWidth⟩

/-- A catalog with a chip that has inputs of three widths, two of them with the same name. -/
def mixed : Catalog :=
  Catalog.empty.register "mixed" (.programmed "Mixed" [⟨"a", 16⟩, ⟨"b", 3⟩, ⟨"a", 1⟩] [] [])

/-- The chip, and a listener that is registered with it. -/
def mixedBench : List Command :=
  [.part "it" "mixed" false, .listener "ann" false [], .add "it" "ann"]

/-- The largest half-word is stored with its sign lost and denoted all the same, so that nobody hears of it
and only the write is on record; a negative value is not denoted in three bits, and the listener hears of
it. -/
theorem set_wraps_and_notifies_mixed :
    ∃ b part, runAll { catalog := mixed } mixedBench = b ∧ b.part? "it" = some (0, part) ∧
      b.run (.set "it" "c" 0) = (.fault (.unknownPin "Mixed" "c"), b.cleared) ∧
      (∃ b', b.run (.set "it" "a" 65535) = (.done, b') ∧ b'.board.pin? 0 = some ⟨⟨"a", 16⟩, -1⟩ ∧
        b'.network = b.cleared.network.note (.pinWritten 0 65535)) ∧
      ∃ b', b.run (.set "it" "b" (-1)) = (.done, b') ∧ b'.board.pin? 1 = some ⟨⟨"b", 3⟩, 7⟩ ∧
        .heard "ann" ⟨1, "Mixed", some "Value -1 does not fit in 3-bit pin 'b'"⟩ ∈ b'.network.trace := by
  have hPart : (runAll { catalog := mixed } mixedBench).part? "it" = some (0,
      { id := 1, gate := .cell ⟨.programmed "Mixed" [⟨"a", 16⟩, ⟨"b", 3⟩, ⟨"a", 1⟩] [] [], [0, 1, 2], []⟩,
        hasDisplay := false, reporter := 0 }) := by rfl
  refine ⟨_, _, rfl, hPart, (set_wraps_and_notifies rfl hPart "c" 0).1 (by decide +kernel), ?_, ?_⟩
  · obtain ⟨b', held, x, hRun, hWrites⟩ := (set_wraps_and_notifies rfl hPart "a" 65535).2 [] 0 [1, 2] rfl
      (by decide +kernel) (by simp)
    obtain rfl : ⟨⟨"a", 16⟩, 0⟩ = held := Option.some.inj (hWrites.before.symm.trans (by rfl)).symm
    obtain rfl : -1 = x := (hWrites.residue (-1)).mpr ⟨by decide, by decide, by decide⟩
    exact ⟨b', hRun, hWrites.after, hWrites.silent (by decide)⟩
  · obtain ⟨b', held, x, hRun, hWrites⟩ := (set_wraps_and_notifies rfl hPart "b" (-1)).2 [0] 1 [2] rfl
      (by decide +kernel) (by decide +kernel)
    obtain rfl : ⟨⟨"b", 3⟩, 0⟩ = held := Option.some.inj (hWrites.before.symm.trans (by rfl)).symm
    obtain rfl : 7 = x := (hWrites.residue 7).mpr ⟨by decide, by decide, by decide⟩
    refine ⟨b', hRun, hWrites.after, ?_⟩
    obtain ⟨turns, told, hNotifies, hTold⟩ := hWrites.notified.mpr (by decide)
    -- the listener is the only one who is registered
    obtain ⟨c, rfl, hTarget⟩ : ∃ c, turns = [c] ∧ c.target = .listener 0 :=
      List.map_eq_singleton_iff.mp (hNotifies.targets.trans (by decide +kernel))
    obtain ⟨last, hChain, -⟩ := hNotifies.chain
    obtain ⟨hNetwork, -⟩ := List.cons.inj hChain
    rw [hTold]
    refine Array.mem_push_of_mem _
      (hNotifies.heard c (List.mem_singleton_self c) ?_ 0 ⟨"ann", [], false, true, 0⟩ hTarget ?_)
    · rw [Network.Turn.alive, hTarget, ← hNetwork]
      decide +kernel
    · rw [← hNetwork]
      decide +kernel

end Bench

end Breadboard
