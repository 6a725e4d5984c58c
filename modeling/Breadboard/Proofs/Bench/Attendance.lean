import Breadboard.Proofs.Bench.Isolation

/-!
# Breadboard — what a part lets its listener and its view know

A part is **attended** (`Bench.Attended`) if a listener is registered with its reporter once, a view that
only looks is shown its pins, and whoever else is registered only listens. Calls leave it so, and each call
lets exactly this be known:

* a value that does not fit the input it is for is reported, before it is written: on the trace the write
  comes after all that the listener hears;
* a step that faults is reported, with the text of the fault that the caller gets;
* a step that goes through is shown, with all inputs and then all outputs as they are now.

`Network.tells_announce` says what reaches a listener among others that only listen, `Network.recorded_after`
that fan-out records no write, `Attended.run` what one call does, and `no_fault_lost_or_invented` what a run
of calls does.
-/

namespace Breadboard

/-- The event that an entry says that a listener has heard. -/
def Entry.heardBy? (listener : String) : Entry → Option Event
  | .heard handle e => if handle = listener then some e else none
  | _ => none

/-- Whether an entry says what a view was shown. -/
def Entry.isShown : Entry → Bool
  | .shown .. => true
  | _ => false

/-- The write to a pin that an entry records. -/
def Entry.write? : Entry → Option (PinId × Value)
  | .noticed (.pinWritten p v) => some (p, v)
  | _ => none

namespace Network

-- ---------------------------------------------------------------------------
-- What is written
-- ---------------------------------------------------------------------------

/-- The writes to pins that the trace records, in order. -/
def recorded (n : Network) : List (PinId × Value) :=
  n.trace.toList.filterMap Entry.write?

theorem recorded_emit (n : Network) (x : Entry) : (n.emit x).recorded = n.recorded ++ x.write?.toList := by
  simp only [recorded, emit, Array.toList_push, List.filterMap_append]
  cases h : x.write? <;> simp [h]

/-- An entry that records no write adds none. -/
theorem recorded_emit_of_none {x : Entry} (h : x.write? = none) (n : Network) :
    (n.emit x).recorded = n.recorded := by
  rw [recorded_emit, h, Option.toList_none, List.append_nil]

theorem recorded_contain (n : Network) (name : String) (crashed : Bool) :
    (n.contain name crashed).recorded = n.recorded := by
  cases crashed
  · rfl
  · exact recorded_emit_of_none rfl n

theorem recorded_letGo (n : Network) (t : Target) : (n.letGo t).recorded = n.recorded := by
  cases t <;> rfl

theorem recorded_release (n : Network) (handle : String) : (n.release handle).recorded = n.recorded := by
  unfold release
  split
  · exact recorded_letGo (n.unbind handle) _
  · rfl

/-- No edit records a write. -/
theorem recorded_edit (n : Network) (e : Edit) : (n.edit e).recorded = n.recorded := by
  cases e with
  | add r l | remove r l =>
    simp only [edit]
    split
    · rfl
    · exact recorded_emit_of_none rfl n
  | count r =>
    simp only [edit]
    split <;> exact recorded_emit_of_none rfl n
  | drop l =>
    simp only [edit, dropListener]
    split <;> rfl

/-- **Fan-out records no write**, whatever the scripts say. -/
theorem recorded_after (n : Network) (task : Task) : (n.after task).recorded = n.recorded := by
  -- the trace is all that matters, and each rule adds an entry of its own kind to it or none
  induction n, task using fanout_induction with
  | announce n r message ih =>
    rw [after_announce]
    cases hr : n.reporters[r]? with
    | none => rfl
    | some it =>
      have hNoted : ((n.beginCall r).note
          (.delivering it.name it.registrations.length message.isNone)).recorded = n.recorded :=
        recorded_emit_of_none rfl (n.beginCall r)
      exact (ih it hr).trans hNoted
  | offer_nil n name e => rw [after_offer_nil]
  | offer_cons n name e t ts ihTell ihRest ihSkip =>
    rw [after_offer_cons]
    cases hAlive : n.alive t with
    | false => exact ihSkip hAlive
    | true => exact (ihRest hAlive).trans ((recorded_contain ..).trans (ihTell hAlive))
  | tell_listener n l e ih =>
    rw [after_tell_listener]
    cases hl : n.listeners[l]? with
    | none => rfl
    | some it =>
      have hHeard : (n.emit (.heard it.handle e)).recorded = n.recorded := recorded_emit_of_none rfl n
      dsimp only
      cases hs : it.script with
      | nil => exact hHeard
      | cons response rest => exact (ih it response rest hl hs).trans hHeard
  | tell_reporter n r e ih =>
    rw [after_tell_reporter]
    cases hr : n.reporters[r]? with
    | none => rfl
    | some it =>
      dsimp only
      cases hm : it.reemitting with
      | true => exact recorded_emit_of_none rfl n
      | false => exact ih it hr hm
  | perform_nil n => rw [after_perform_nil]
  | perform_edit n e rest ih =>
    rw [after_perform_edit]
    exact ih.trans (recorded_edit n e)
  | perform_release n handle rest ih =>
    rw [after_perform_release]
    exact ih.trans (recorded_release n handle)
  | perform_notify n handle message rest ihFail ihSend ihRest =>
    rw [after_perform_notify]
    cases hr : n.reporter? handle with
    | none => exact (ihFail hr).trans (recorded_emit_of_none rfl n)
    | some r => exact (ihRest r hr).trans (ihSend r hr)

-- ---------------------------------------------------------------------------
-- What is told
-- ---------------------------------------------------------------------------

/-- The events on the trace that a listener has heard, in order. -/
def heardBy (n : Network) (listener : String) : List Event :=
  n.trace.toList.filterMap (Entry.heardBy? listener)

/-- What views have been shown, in order. -/
def shown (n : Network) : List Entry :=
  n.trace.toList.filter Entry.isShown

/-- All that has changed is the trace, by which the listener has heard the events `es` and views have been
shown `xs`. -/
def Tells (listener : String) (es : List Event) (xs : List Entry) (n n' : Network) : Prop :=
  ∃ new, n' = n.said new ∧ new.filterMap (Entry.heardBy? listener) = es ∧ new.filter Entry.isShown = xs

section Tells

variable {n n' n'' : Network} {listener : String} {es es' : List Event} {xs xs' : List Entry}

theorem Tells.refl (listener : String) (n : Network) : Tells listener [] [] n n :=
  ⟨[], (said_nil n).symm, rfl, rfl⟩

/-- What is told in two goes is told in a row. -/
theorem Tells.trans (h : Tells listener es xs n n') (h' : Tells listener es' xs' n' n'') :
    Tells listener (es ++ es') (xs ++ xs') n n'' := by
  obtain ⟨new, rfl, rfl, rfl⟩ := h
  obtain ⟨new', rfl, rfl, rfl⟩ := h'
  exact ⟨new ++ new', said_said .., List.filterMap_append, List.filter_append ..⟩

/-- What only adds notices tells nobody anything. -/
theorem tells_notices (n : Network) (listener : String) (ns : List Notice) :
    Tells listener [] [] n (n.said (ns.map .noticed)) := by
  refine ⟨ns.map .noticed, rfl, ?_, ?_⟩
  · simp [List.filterMap_map, Entry.heardBy?, Function.comp_def]
  · simp [Entry.isShown]

theorem tells_note (n : Network) (listener : String) (it : Notice) :
    Tells listener [] [] n (n.note it) := by
  rw [note_eq_said]
  exact tells_notices n listener [it]

theorem tells_shown (n : Network) (listener view : String) (inputs outputs : List (String × Word)) :
    Tells listener [] [.shown view inputs outputs] n (n.emit (.shown view inputs outputs)) :=
  ⟨_, emit_eq_said n _, rfl, rfl⟩

/-- A breakdown that is contained is noticed, and told to nobody. -/
theorem tells_contain (n : Network) (listener name : String) (crashed : Bool) :
    Tells listener [] [] n (n.contain name crashed) := by
  rcases exists_contain_eq_said n name crashed with hEq | hEq
  · rw [hEq]
    exact .refl listener n
  · rw [hEq]
    exact tells_notices n listener [_]

end Tells

/-- Whether a target is a listener of that handle. -/
def isCalled (n : Network) (listener : String) : Target → Bool
  | .listener l => n.listeners[l]?.any fun it => it.handle = listener
  | .reporter _ => false

/-- How often a walk over some targets comes to a listener of that handle that is alive. -/
def visits (n : Network) (listener : String) (ts : List Target) : Nat :=
  ts.countP fun t => n.alive t && n.isCalled listener t

theorem visits_said (n : Network) (new : List Entry) (listener : String) (ts : List Target) :
    (n.said new).visits listener ts = n.visits listener ts := rfl

/-- Whether a target is a listener that hears events and does nothing about them. -/
def onlyListens (n : Network) : Target → Bool
  | .listener l => n.listeners[l]?.any fun it => it.script = []
  | .reporter _ => false

/-- Who only listens is a listener whose script is used up. -/
theorem exists_of_onlyListens {n : Network} {t : Target} (h : n.onlyListens t = true) :
    ∃ l it, t = .listener l ∧ n.listeners[l]? = some it ∧ it.script = [] := by
  cases t with
  | listener l =>
    obtain ⟨it, hl, hScript⟩ := (Option.any_eq_true _ _).mp h
    exact ⟨l, it, rfl, hl, of_decide_eq_true hScript⟩
  | reporter r => cases h

/-- A listener that only listens hears of the event if it is the one. -/
theorem tells_tell {n : Network} {t : Target} (h : n.onlyListens t = true) (listener : String) (e : Event) :
    Tells listener (if n.isCalled listener t then [e] else []) [] n (n.after (.tell t e)) := by
  obtain ⟨l, it, rfl, hl, hScript⟩ := exists_of_onlyListens h
  rw [after_tell_listener, hl]
  simp only [hScript, emit_eq_said]
  refine ⟨[.heard it.handle e], rfl, ?_, rfl⟩
  by_cases hHandle : it.handle = listener <;> simp [Entry.heardBy?, isCalled, hl, hHandle]

/-- **A walk among those who only listen** lets a listener hear the event as often as it is on the list,
as far as it is alive. -/
theorem tells_offer {n : Network} (name listener : String) (e : Event) (ts : List Target)
    (h : ∀ t ∈ ts, n.alive t = true → n.onlyListens t = true) :
    Tells listener (List.replicate (n.visits listener ts) e) [] n (n.after (.offer name e ts)) := by
  induction ts generalizing n with
  | nil =>
    rw [after_offer_nil]
    exact .refl listener n
  | cons t ts ih =>
    rw [List.forall_mem_cons] at h
    rw [after_offer_cons]
    by_cases hAlive : n.alive t = true
    · have hTold := (tells_tell (h.1 hAlive) listener e).trans
        (tells_contain _ listener name (n.crashes t))
      -- nothing has changed but the trace, so the rest of the walk goes as from `n`
      have ⟨new, hSaid, _⟩ := hTold
      rw [hSaid] at hTold
      have hBoth := hTold.trans (ih (n := n.said new) h.2)
      rw [visits_said] at hBoth
      rw [if_pos hAlive, hSaid, visits, List.countP_cons, ← visits]
      by_cases hCalled : n.isCalled listener t = true
      · simpa [hAlive, hCalled, List.replicate_succ] using hBoth
      · simpa [hAlive, hCalled] using hBoth
    · -- the dead are passed over, and do not count
      rw [if_neg hAlive, visits, List.countP_cons_of_neg (by simp [hAlive])]
      exact ih h.2

/-- A listener is registered with a reporter once, and whoever else is registered there only listens. -/
structure Attends (n : Network) (r : ReporterId) (listener : String) : Prop where
  once : n.visits listener (n.registrations r) = 1
  passive : ∀ t ∈ n.registrations r, n.alive t = true → n.onlyListens t = true

/-- A walk comes to a listener as often when its reporter has set out as before. -/
theorem visits_beginCall (n : Network) (r : ReporterId) (listener : String) (ts : List Target) :
    (n.beginCall r).visits listener ts = n.visits listener ts := by
  refine List.countP_congr fun t _ => ?_
  rw [alive_beginCall]
  cases t <;> rfl

theorem Attends.said {n : Network} {r : ReporterId} {listener : String} (h : n.Attends r listener)
    (new : List Entry) : (n.said new).Attends r listener :=
  ⟨h.once, h.passive⟩

/-- **One report, heard once**, with the identity and the name of the reporter. -/
theorem tells_announce {n : Network} {r : ReporterId} {listener : String} {source : Ident} {name : String}
    (h : n.Attends r listener) (hVoice : n.voices[r]? = some (source, name)) (message : Option String) :
    Tells listener [⟨source, name, message⟩] [] n (n.announce r message) := by
  have hNoted := tells_note (n.beginCall r) listener
    (.delivering name (n.registrations r).length message.isNone)
  rw [note_eq_said] at hNoted
  -- the walk goes over the list as it was when the reporter set out
  have hPassive : ∀ t ∈ n.registrations r, (n.beginCall r).alive t = true →
      (n.beginCall r).onlyListens t = true := by
    intro t ht hAlive
    rw [alive_beginCall] at hAlive
    have hListens := h.passive t ht hAlive
    cases t <;> exact hListens
  have hBoth := hNoted.trans
    (tells_offer name listener ⟨source, name, message⟩ (n.registrations r) hPassive)
  rw [visits_said, visits_beginCall, h.once] at hBoth
  -- and since it has only said something, the reporter comes back to where it was
  obtain ⟨new, hSaid, hHeard, hShown⟩ := hBoth
  refine ⟨new, ?_, hHeard, hShown⟩
  rw [announce_of_voice hVoice, note_eq_said, hSaid, endCall_said_beginCall]

/-- A report of something that has been noted. -/
theorem tells_announce_note {n : Network} {r : ReporterId} {listener : String} {source : Ident}
    {name : String} (h : n.Attends r listener) (hVoice : n.voices[r]? = some (source, name)) (it : Notice)
    (message : Option String) :
    Tells listener [⟨source, name, message⟩] [] n ((n.note it).announce r message) := by
  have hNoted := tells_note n listener it
  rw [note_eq_said] at hNoted ⊢
  exact hNoted.trans (tells_announce (h.said _) hVoice message)

end Network

namespace Bench

-- ---------------------------------------------------------------------------
-- Parts that have been stepped
-- ---------------------------------------------------------------------------

/-- The part that a command steps is the one that it makes the call of. -/
theorem mem_started_iff (b : Bench) (i : Nat) (c : Command) :
    i ∈ b.started c ↔ b.callOf i c = some .recompute := by
  cases c with
  | recompute handle =>
    simp only [started, callOf]
    cases b.part? handle with
    | none => simp
    | some it => simp [eq_comm]
  | set handle pin v =>
    simp only [started, callOf]
    cases b.part? handle with
    | none => simp
    | some it => simp
  | _ => simp [started, callOf]

/-- **A part is running exactly if it has been stepped**, however the steps ended. -/
theorem running_runAll_iff (b : Bench) (cs : List Command) (i : Nat) :
    (b.runAll cs).Running i ↔ .recompute ∈ callsOf i b cs ∨ b.Running i := by
  induction cs generalizing b with
  | nil => simp [runAll, callsOf]
  | cons c cs ih =>
    show ((b.run c).2.runAll cs).Running i ↔ _
    rw [ih, running_run_iff, mem_started_iff, callsOf, List.mem_append, Option.mem_toList]
    tauto

-- ---------------------------------------------------------------------------
-- Attended parts
-- ---------------------------------------------------------------------------

/-- A part with a listener that is registered once, among others that only listen, and with a display and a
view that is there and does nothing but look. -/
structure Attended (b : Bench) (handle : String) (i : Nat) (part : Part) (listener : String)
    (view : View) : Prop where
  found : ∃ phase, b.part? handle = some (i, { part with phase := phase })
  attends : b.network.Attends part.reporter listener
  watches : b.audience part = some view
  content : view.script = []
  steady : view.habit = {}

/-- Telling changes nothing about who attends, and neither do the pins and the phase of a part. -/
theorem Attended.of_tells {b b' : Bench} {handle : String} {i : Nat} {part : Part} {listener : String}
    {view : View} (h : b.Attended handle i part listener view) {es : List Event} {xs : List Entry}
    (hTells : Network.Tells listener es xs b.network b'.network) (hViews : b'.views = b.views)
    (hParts : ∀ phase, b.parts[i]? = some { part with phase := phase } →
      ∃ phase', b'.parts[i]? = some { part with phase := phase' }) :
    b'.Attended handle i part listener view := by
  obtain ⟨new, hSaid, -⟩ := hTells
  obtain ⟨⟨phase, hPart⟩, hListener, hView, hContent, hSteady⟩ := h
  refine ⟨?_, ?_, ?_, hContent, hSteady⟩
  · rw [part?_eq_some_iff] at hPart
    obtain ⟨phase', hPart'⟩ := hParts phase hPart.2
    refine ⟨phase', part?_eq_some_iff.mpr ⟨?_, hPart'⟩⟩
    rw [hSaid]
    exact hPart.1
  · rw [hSaid]
    exact hListener.said new
  · rw [audience, hViews]
    exact hView

-- ---------------------------------------------------------------------------
-- Calls of an attended part
-- ---------------------------------------------------------------------------

/-- The events that are due when a value is written to an input. -/
def lossy (b : Bench) (part : Part) (pin : String) (v : Value) : List Event :=
  match b.board.find? part.gate.inputs pin with
  | some p =>
    if fits v (b.board.widthOf p) then []
    else [⟨part.id, part.name, some (lossyMessage v (b.board.widthOf p) pin)⟩]
  | none => []

/-- Notices are said in a row. -/
theorem noteAll_eq (b : Bench) (ns : List Notice) :
    b.noteAll ns = { b with network := b.network.said (ns.map .noticed) } := by
  induction ns generalizing b with
  | nil => simp [noteAll]
  | cons it ns ih =>
    rw [noteAll, List.foldl_cons, ← noteAll, ih, note, withNetwork, Network.note_eq_said]
    simp

section Calls

variable {b : Bench} {part : Part} {listener : String} {view : View}

theorem tells_reportLossy (h : b.network.Attends part.reporter listener)
    (hVoice : b.network.voices[part.reporter]? = some (part.id, part.name)) (message : String) :
    Network.Tells listener [⟨part.id, part.name, some message⟩] [] b.network
      (b.reportLossy part message).network :=
  Network.tells_announce_note h hVoice _ _

/-- The bench after a value that is about to be written to the pin `p` has been reported, if it does not
fit. -/
def reported (b : Bench) (part : Part) (pin : String) (v : Value) (p : PinId) : Bench :=
  if fits v (b.board.widthOf p) then b
  else b.reportLossy part (lossyMessage v (b.board.widthOf p) pin)

/-- A report concerns the network only. -/
theorem reported_eq (b : Bench) (part : Part) (pin : String) (v : Value) (p : PinId) :
    b.reported part pin v p = { b with network := (b.reported part pin v p).network } := by
  unfold reported
  split <;> rfl

/-- A report records no write. -/
theorem recorded_reported (b : Bench) (part : Part) (pin : String) (v : Value) (p : PinId) :
    (b.reported part pin v p).network.recorded = b.network.recorded := by
  unfold reported
  split
  · rfl
  · exact (Network.recorded_after ..).trans (Network.recorded_emit_of_none rfl b.network)

/-- **Writing to an input** comes after a report, if one is due. -/
theorem setInput_eq {pin : String} {v : Value} {p : PinId}
    (hFind : b.board.find? part.gate.inputs pin = some p) :
    b.setInput part pin v = (.ok (), (b.reported part pin v p).writePin p v) := by
  simp only [setInput, hFind, reported]

/-- The listener hears of a value that does not fit, and of no other. -/
theorem tells_reported (h : b.network.Attends part.reporter listener)
    (hVoice : b.network.voices[part.reporter]? = some (part.id, part.name)) {pin : String} {v : Value}
    {p : PinId} (hFind : b.board.find? part.gate.inputs pin = some p) :
    Network.Tells listener (b.lossy part pin v) [] b.network (b.reported part pin v p).network := by
  simp only [lossy, hFind, reported]
  split
  · exact .refl listener _
  · exact tells_reportLossy h hVoice _

/-- What is due when the gate of a part has been stepped: a fault is reported. -/
def faulted (part : Part) (done : Stepped) : List Event :=
  match done.outcome with
  | .error (.fault f) => [⟨part.id, part.name, some f.message⟩]
  | _ => []

/-- What a view is due to be shown when the gate of a part has been stepped: the pins, if the step went
through. -/
def exhibited (part : Part) (view : View) (done : Stepped) : List Entry :=
  match done.outcome with
  | .ok () => [.shown view.handle (done.board.readings part.gate.inputs)
      (done.board.readings part.gate.outputs)]
  | _ => []

/-- A view that has no script left has no page to turn. -/
theorem turnPage_eq_self (hView : b.audience part = some view) (hContent : view.script = []) :
    b.turnPage part = b := by
  unfold turnPage
  split
  next i hi =>
    have hSame : (b.views.modify i fun v => { v with script := v.script.tail }) = b.views := by
      refine Array.ext_getElem? fun j => ?_
      rw [Array.getElem?_modify]
      split
      next hj =>
        -- at that place there is the view, with nothing on its script
        subst hj
        unfold audience at hView
        split at hView
        · rw [hi, Option.bind_some, Option.filter_eq_some_iff] at hView
          rw [hView.1, Option.map_some]
          cases view
          simp_all
        · cases hView
      next => rfl
    rw [hSame]
  next => rfl

/-- A view that only looks is held and let go of, and that is all. -/
theorem respond_eq_self (hContent : view.script = []) (hSteady : view.habit = {}) :
    b.respond part view = b := by
  have hNext : view.next = {} := by rw [View.next, hContent, List.headD_nil, hSteady]
  have hBack : (b.network.beginCall part.reporter).endCall part.reporter = b.network := by
    have hSaid := Network.endCall_said_beginCall b.network part.reporter []
    rwa [Network.said_nil, Network.said_nil] at hSaid
  simp only [respond, react, hNext, withNetwork, Network.after_perform_nil, hBack]

/-- A view that only looks is shown the pins, and that is all. -/
theorem display_attended (hView : b.audience part = some view) (hContent : view.script = [])
    (hSteady : view.habit = {}) :
    b.display part = (.ok (), b.emit (.shown view.handle (b.board.readings part.gate.inputs)
      (b.board.readings part.gate.outputs))) := by
  have hNext : view.next.crashes = false := by rw [View.next, hContent, List.headD_nil, hSteady]
  simp only [display, hView, hNext, respond_eq_self hContent hSteady, present,
    turnPage_eq_self hView hContent]
  rfl

/-- **Stepping a part** reports a fault, or shows the pins. -/
theorem recompute_attended (h : b.network.Attends part.reporter listener)
    (hVoice : b.network.voices[part.reporter]? = some (part.id, part.name))
    (hView : b.audience part = some view) (hContent : view.script = [])
    (hSteady : view.habit = {}) (i : Nat) :
    ∃ n, Network.Tells listener (faulted part (part.gate.stepped b.board))
        (exhibited part view (part.gate.stepped b.board)) b.network n ∧
      (b.recompute i part).2 = { b with
        network := n
        board := (part.gate.stepped b.board).board
        parts := b.parts.modify i fun p => { p with phase := .running } } := by
  unfold recompute faulted exhibited
  extract_lets b₁ done b₂
  have hb₂ : b₂ = { b with
      network := b.network.said (done.notices.map .noticed)
      board := done.board
      parts := b.parts.modify i fun p => { p with phase := .running } } := noteAll_eq _ _
  -- what the step has to say comes first; then the fault, or the pins
  have hNoted := Network.tells_notices b.network listener done.notices
  have hDisplay := display_attended (b := b₂) (by rw [hb₂]; exact hView) hContent hSteady
  rw [show part.gate.stepped b.board = done from rfl]
  clear_value b₂
  subst hb₂
  cases hOutcome : done.outcome with
  | error e =>
    cases e with
    | crash => exact ⟨_, hNoted, rfl⟩
    | fault f =>
      have hSent := Network.tells_announce_note (h.said (done.notices.map .noticed)) hVoice
        (.partFaulted part.name f) (some f.message)
      exact ⟨_, hNoted.trans hSent, rfl⟩
  | ok u =>
    have hShown := hNoted.trans (Network.tells_shown _ listener view.handle
      (done.board.readings part.gate.inputs) (done.board.readings part.gate.outputs))
    refine ⟨_, hShown.trans (Network.tells_note _ listener (.partStepped part.name part.id)), ?_⟩
    dsimp only
    rw [hDisplay]
    rfl

end Calls

-- ---------------------------------------------------------------------------
-- Runs of calls
-- ---------------------------------------------------------------------------

/-- One call in a run: the bench before it, the reply, and the bench after it with the trace of the call. -/
structure Episode where
  call : Call
  start : Bench
  reply : Reply
  finish : Bench

/-- The episode of a call that is made now. -/
def episode (b : Bench) (handle : String) (call : Call) : Episode :=
  let done := b.run (call.command handle)
  ⟨call, b, done.1, done.2⟩

/-- The episodes of some calls, one after the other. -/
def episodes (handle : String) : Bench → List Call → List Episode
  | _, [] => []
  | b, call :: calls => b.episode handle call :: episodes handle (b.episode handle call).finish calls

namespace Episode

/-- The events that a listener is due to hear: one for a value that does not fit the input it is for, and one
for a step that the caller is told has faulted. -/
def due (e : Episode) (part : Part) : List Event :=
  match e.call, e.reply with
  | .set pin v, _ => e.start.lossy part pin v
  | .recompute, .fault f => [⟨part.id, part.name, some f.message⟩]
  | .recompute, _ => []

/-- What the view is due to be shown: inputs and outputs as they are now, if the caller is given the words of
the outputs. -/
def shows (e : Episode) (part : Part) (view : View) : List Entry :=
  match e.call, e.reply with
  | .recompute, .words _ => [.shown view.handle (e.finish.board.readings part.gate.inputs)
      (e.finish.board.readings part.gate.outputs)]
  | _, _ => []

/-- An episode is **faithful**: the listener hears what is due and the view is shown what is due, and the
writes on the trace are what has become of the board. A value that does not fit is reported first: when the
listener has heard all that is due, the board is as before and no write is on the trace; the write is what
comes next, and last. -/
structure Faithful (e : Episode) (part : Part) (listener : String) (view : View) : Prop where
  heard : e.finish.network.heardBy listener = e.due part
  shown : e.finish.network.shown = e.shows part view
  written : ∀ pin v, e.call = .set pin v →
    e.finish.board = e.finish.network.recorded.foldl (fun board w => board.write w.1 w.2) e.start.board
  reportedFirst : ∀ pin v p, e.call = .set pin v → e.start.board.find? part.gate.inputs pin = some p →
    fits v (e.start.board.widthOf p) = false →
    ∃ told : Bench, told.board = e.start.board ∧ told.network.recorded = [] ∧
      told.network.heardBy listener = e.due part ∧
      e.finish.network.trace = told.network.trace.push (.noticed (.pinWritten p v)) ∧
      e.finish.board = told.board.write p v

theorem map_told {es : List Episode} {part : Part} {listener : String} {view : View}
    (h : ∀ e ∈ es, e.Faithful part listener view) :
    es.map (fun e => (e.finish.network.heardBy listener, e.finish.network.shown)) =
      es.map fun e => (e.due part, e.shows part view) :=
  List.map_congr_left fun e he => congrArg₂ Prod.mk (h e he).heard (h e he).shown

/-- What is due after a step can be read off the reply: the caller gets the fault, or the outputs. -/
theorem due_recompute {e : Episode} {part : Part} {board : Board} (hCall : e.call = .recompute)
    (hReply : e.reply = (part.gate.answer board .recompute).1) :
    e.due part = faulted part (part.gate.stepped board) := by
  simp only [due, hCall, hReply, Gate.answer, faulted]
  cases (part.gate.stepped board).outcome with
  | ok u => rfl
  | error e => cases e <;> rfl

/-- So can what the view is due to be shown. -/
theorem shows_recompute {e : Episode} {part : Part} {view : View} {board : Board}
    (hCall : e.call = .recompute) (hReply : e.reply = (part.gate.answer board .recompute).1)
    (hBoard : e.finish.board = (part.gate.stepped board).board) :
    e.shows part view = exhibited part view (part.gate.stepped board) := by
  simp only [shows, hCall, hReply, hBoard, Gate.answer, exhibited]
  cases (part.gate.stepped board).outcome with
  | ok u => rfl
  | error e => cases e <;> rfl

end Episode

/-- What was told since the trace was empty is what is on the trace. -/
theorem heardBy_of_tells {n n' : Network} {listener : String} {es : List Event} {xs : List Entry}
    (hEmpty : n.trace = #[]) (h : Network.Tells listener es xs n n') :
    n'.heardBy listener = es ∧ n'.shown = xs := by
  obtain ⟨new, rfl, rfl, rfl⟩ := h
  simp [Network.heardBy, Network.shown, Network.said, hEmpty]

section Runs

variable {b : Bench} {handle : String} {i : Nat} {part : Part} {listener : String} {view : View}

theorem Attended.cleared (h : b.Attended handle i part listener view) :
    b.cleared.Attended handle i part listener view :=
  ⟨h.found, ⟨h.attends.once, h.attends.passive⟩, h.watches, h.content, h.steady⟩

theorem Attended.voice (h : b.Attended handle i part listener view) (hSpeaks : b.Speaks) :
    b.network.voices[part.reporter]? = some (part.id, part.name) := by
  obtain ⟨phase, hPart⟩ := h.found
  have hVoice := hSpeaks i _ ((part?_eq_some_iff.mp hPart).2)
  exact hVoice

/-- The phase of a part has no part in a step. -/
theorem perform_recompute {phase : Phase} (hPart : b.part? handle = some (i, { part with phase := phase })) :
    (b.perform (.recompute handle)).2 = (b.recompute i part).2 := by
  have hStep : b.recompute i { part with phase := phase } = b.recompute i part := rfl
  simp only [perform, onPart, hPart, hStep]
  split
  next b' hEq => rw [hEq]
  next e b' hEq => rw [hEq]

/-- The view lets every answer of the gate through. -/
theorem Attended.reply (h : b.Attended handle i part listener view) (call : Call) :
    (b.perform (call.command handle)).1 = (part.gate.answer b.board call).1 := by
  obtain ⟨phase, hPart⟩ := h.found
  have hCrashes : b.viewCrashes { part with phase := phase } = false := by
    have hView : b.audience { part with phase := phase } = some view := h.watches
    rw [viewCrashes, hView, Option.any_some, View.next, h.content, List.headD_nil, h.steady]
  rw [reply_perform_call hPart, hCrashes, Reply.afterShow_false]

/-- **Writing to an input of an attended part.** -/
theorem Attended.run_set (h : b.Attended handle i part listener view) (hSpeaks : b.Speaks) (pin : String)
    (v : Value) :
    (b.episode handle (.set pin v)).finish.Attended handle i part listener view ∧
      (b.episode handle (.set pin v)).Faithful part listener view := by
  obtain ⟨phase, hPart⟩ := h.cleared.found
  cases hFind : b.board.find? part.gate.inputs pin with
  | none =>
    have hDone : b.run (.set handle pin v) = (.fault (.unknownPin part.name pin), b.cleared) := by
      show b.cleared.perform _ = _
      have hFind : b.cleared.board.find? part.gate.inputs pin = none := hFind
      simp only [perform, onPart, hPart, setInput, hFind]
      rfl
    -- no input has the name: nothing is due, and nothing was written
    simp only [episode, Call.command, hDone]
    refine ⟨h.cleared, ?_, rfl, fun _ _ _ => rfl, ?_⟩
    · simp only [Episode.due, lossy, hFind]
      rfl
    · intro pin' v' p hCall hSome
      cases hCall
      rw [hFind] at hSome
      cases hSome
  | some p =>
    have hDone : b.run (.set handle pin v) =
        (.done, (b.cleared.reported part pin v p).writePin p v) := by
      show b.cleared.perform _ = _
      have hSet : b.cleared.setInput { part with phase := phase } pin v =
          (.ok (), (b.cleared.reported part pin v p).writePin p v) :=
        setInput_eq (b := b.cleared) hFind
      simp only [perform, onPart, hPart, hSet]
    -- first the report, if one is due, with the board as it was and no write on the trace
    have hTold := tells_reported (b := b.cleared) (v := v) h.cleared.attends (h.voice hSpeaks) hFind
    have hBoard : (b.cleared.reported part pin v p).board = b.board := by
      rw [reported_eq]
      rfl
    have hNone : (b.cleared.reported part pin v p).network.recorded = [] :=
      recorded_reported b.cleared part pin v p
    -- and then the write, of which nobody hears
    have hTells := hTold.trans (Network.tells_note _ listener (.pinWritten p v))
    rw [List.append_nil, List.append_nil] at hTells
    obtain ⟨hHeard, hShown⟩ := heardBy_of_tells rfl hTells
    simp only [episode, Call.command, hDone]
    refine ⟨h.cleared.of_tells hTells ?_ ?_, hHeard, hShown, fun _ _ _ => ?_, ?_⟩
    · show (b.cleared.reported part pin v p).views = _
      rw [reported_eq]
    · intro phase hPhase
      refine ⟨phase, ?_⟩
      show (b.cleared.reported part pin v p).parts[i]? = _
      rw [reported_eq]
      exact hPhase
    · have hWrites : ((b.cleared.reported part pin v p).writePin p v).network.recorded = [(p, v)] := by
        refine (Network.recorded_emit ..).trans ?_
        rw [hNone]
        rfl
      rw [hWrites, ← hBoard]
      rfl
    · rintro _ _ q ⟨⟩ hSome -
      obtain rfl : p = q := Option.some.inj (hFind.symm.trans hSome)
      exact ⟨b.cleared.reported part pin v p, hBoard, hNone, (heardBy_of_tells rfl hTold).1, rfl, rfl⟩

/-- **Stepping an attended part.** -/
theorem Attended.run_recompute (h : b.Attended handle i part listener view) (hSpeaks : b.Speaks) :
    (b.episode handle .recompute).finish.Attended handle i part listener view ∧
      (b.episode handle .recompute).Faithful part listener view := by
  obtain ⟨phase, hPart⟩ := h.cleared.found
  obtain ⟨n, hTells, hStep⟩ := recompute_attended h.cleared.attends (h.voice hSpeaks) h.watches h.content
    h.steady i
  have hFinish : (b.episode handle .recompute).finish = _ := (perform_recompute hPart).trans hStep
  have hReply : (b.episode handle .recompute).reply = _ := h.cleared.reply .recompute
  obtain ⟨hHeard, hShown⟩ := heardBy_of_tells rfl hTells
  refine ⟨?_, ?_, ?_, nofun, nofun⟩
  · -- still attended: only the phase of the part has changed
    rw [hFinish]
    refine h.cleared.of_tells hTells rfl fun phase' hPhase => ⟨.running, ?_⟩
    show (b.parts.modify i _)[i]? = _
    rw [Array.getElem?_modify, if_pos rfl, show b.parts[i]? = _ from hPhase]
    rfl
  · rw [Episode.due_recompute rfl hReply, hFinish]
    exact hHeard
  · rw [Episode.shows_recompute rfl hReply (congrArg Bench.board hFinish), hFinish]
    exact hShown

/-- **A call of an attended part** is faithful and leaves the part attended. -/
theorem Attended.run (h : b.Attended handle i part listener view) (hSpeaks : b.Speaks) (call : Call) :
    (b.episode handle call).finish.Attended handle i part listener view ∧
      (b.episode handle call).Faithful part listener view := by
  cases call with
  | set pin v => exact h.run_set hSpeaks pin v
  | recompute => exact h.run_recompute hSpeaks

/-- **All calls of an attended part are faithful**, one after the other. -/
theorem Attended.faithful_episodes (h : b.Attended handle i part listener view) (hSpeaks : b.Speaks)
    (calls : List Call) : ∀ e ∈ episodes handle b calls, e.Faithful part listener view := by
  induction calls generalizing b with
  | nil => exact fun e he => absurd he List.not_mem_nil
  | cons call calls ih =>
    obtain ⟨hAttended, hFaithful⟩ := h.run hSpeaks call
    rw [episodes, List.forall_mem_cons]
    exact ⟨hFaithful, ih hAttended (hSpeaks.run _)⟩

/-- The calls of an attended part are the calls that are made. -/
theorem Attended.callsOf_eq (h : b.Attended handle i part listener view) (hSpeaks : b.Speaks)
    (calls : List Call) : callsOf i b (calls.map (Call.command handle)) = calls := by
  induction calls generalizing b with
  | nil => rfl
  | cons call calls ih =>
    obtain ⟨hAttended, -⟩ := h.run hSpeaks call
    obtain ⟨phase, hPart⟩ := h.found
    have hCall : b.callOf i (call.command handle) = some call := by
      cases call <;> simp [callOf, Call.command, hPart]
    rw [List.map_cons, callsOf, hCall, Option.toList_some, List.singleton_append]
    exact congrArg _ (ih hAttended (hSpeaks.run _))

end Runs

/--
**No fault is lost and none is invented.** Take a part on a bench on which anything has been done before, and
let it be attended by a listener and a view. Make any calls of it, one after the other.

* Every episode is faithful. What the listener hears of a call is one event for a value that does not fit
  the input it is for, while the pin still holds its old word and before the write is on the trace, one
  event for a step that faults, with the text of the fault that is handed back, and nothing else; and the
  events carry identity and name of the part. The view is shown the pins once by a step that goes through,
  and by no other call.
* Afterwards the part is running exactly if it was ever stepped, however its steps ended.
-/
theorem no_fault_lost_or_invented {catalog : Catalog} {before : List Command} {handle : String} {i : Nat}
    {part : Part} {listener : String} {view : View}
    (hAttended : (runAll { catalog } before).Attended handle i part listener view) (calls : List Call) :
    (∀ e ∈ episodes handle (runAll { catalog } before) calls, e.Faithful part listener view) ∧
    ((runAll { catalog } (before ++ calls.map (Call.command handle))).Running i ↔
      .recompute ∈ callsOf i { catalog } before ∨ .recompute ∈ calls) := by
  have hSpeaks := (speaks_empty catalog).runAll before
  refine ⟨hAttended.faithful_episodes hSpeaks calls, ?_⟩
  have hNew : ¬ Running { catalog } i := by
    rintro ⟨it, hIt, -⟩
    simp at hIt
  rw [runAll_append, running_runAll_iff, hAttended.callsOf_eq hSpeaks, running_runAll_iff]
  tauto

/-- A catalog with a chip that passes its input on and faults if that is set. -/
def fuses : Catalog :=
  Catalog.empty.register "Fuse" (.programmed "Fuse" [.bit "in"] [.bit "out"]
    [.failIf 0 1 "blown", .copy 0 0])

/-- A fuse with a view and two listeners, one of which breaks down whenever it hears something. -/
def fuseBench : List Command :=
  [.part "fuse" "Fuse" true, .view "screen" false none false, .attach "fuse" "screen",
    .listener "ann" false [], .listener "bob" true [], .add "fuse" "bob", .add "fuse" "ann"]

/-- The fuse is stepped and shown; with its input set, the step is reported; and so is a value that is too
large, which does not step it. The write of that value is the last thing on the trace. -/
theorem no_fault_lost_or_invented_fuse :
    ∃ (part : Part) (view : View), (runAll { catalog := fuses } fuseBench).Attended "fuse" 0 part "ann" view ∧
      (episodes "fuse" (runAll { catalog := fuses } fuseBench) [.recompute]).map
          (fun e => (e.finish.network.heardBy "ann", e.finish.network.shown)) =
        [([], [.shown "screen" [("in", 0)] [("out", 0)]])] ∧
      (episodes "fuse" (runAll { catalog := fuses } fuseBench) [.set "in" 1, .recompute]).map
          (fun e => (e.finish.network.heardBy "ann", e.finish.network.shown)) =
        [([], []), ([⟨1, "Fuse", some (Fault.evaluation "Fuse" "blown").message⟩], [])] ∧
      (episodes "fuse" (runAll { catalog := fuses } fuseBench) [.set "in" 7]).map
          (fun e => (e.finish.network.heardBy "ann", e.finish.network.shown)) =
        [([⟨1, "Fuse", some "Value 7 does not fit in 1-bit pin 'in'"⟩], [])] ∧
      (∀ e ∈ episodes "fuse" (runAll { catalog := fuses } fuseBench) [.set "in" 7],
        e.finish.network.trace.back? = some (.noticed (.pinWritten 0 7))) ∧
      ¬ (runAll { catalog := fuses } (fuseBench ++ [.set "fuse" "in" 7])).Running 0 := by
  have hAttended : (runAll { catalog := fuses } fuseBench).Attended "fuse" 0
      { id := 1, gate := .cell ⟨.programmed "Fuse" [.bit "in"] [.bit "out"] [.failIf 0 1 "blown", .copy 0 0],
        [0], [1]⟩, hasDisplay := true, reporter := 0, view := some 0 } "ann"
      { handle := "screen", reporter := some 0 } :=
    ⟨⟨.constructed, rfl⟩, ⟨by decide +kernel, by decide +kernel⟩, by decide +kernel, rfl, rfl⟩
  have hShown := no_fault_lost_or_invented hAttended [.recompute]
  have hBlown := no_fault_lost_or_invented hAttended [.set "in" 1, .recompute]
  have hLarge := no_fault_lost_or_invented hAttended [.set "in" 7]
  refine ⟨_, _, hAttended, ?_, ?_, ?_, fun e he => ?_,
    fun hRunning => absurd (hLarge.2.mp hRunning) (by decide +kernel)⟩
  · rw [Episode.map_told hShown.1]
    decide +kernel
  · rw [Episode.map_told hBlown.1]
    decide +kernel
  · rw [Episode.map_told hLarge.1]
    decide +kernel
  · have hFaithful := hLarge.1 e he
    rw [episodes, episodes, List.mem_singleton] at he
    subst he
    obtain ⟨told, -, -, -, hTrace, -⟩ :=
      hFaithful.reportedFirst "in" 7 0 rfl (by decide +kernel) (by decide +kernel)
    rw [hTrace, Array.back?_push]

end Bench

end Breadboard
