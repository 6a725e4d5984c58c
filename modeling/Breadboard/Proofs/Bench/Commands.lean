import Breadboard.Bench.Command
import Breadboard.Proofs.Bench.Moves

/-!
# Breadboard — what commands are made of

Every command is made of moves, and has no effect on pins and parts but what it asks for (`AskedFor`,
`exists_moves_perform`). That is shown function by function, once; what is known of moves is then known of
commands, and of all runs of them (`runAll_induction`).
-/

namespace Breadboard

namespace Board

/-- Making the pins of a chip leads ahead … -/
theorem reaches_placeAll {b b' : Board} {ss : List Signal} (h : b.placeAll ss = .ok b') :
    b.Reaches b' := by
  induction ss generalizing b with
  | nil =>
    obtain rfl : b = b' := Except.ok.inj h
    exact .refl b
  | cons s ss ih =>
    obtain ⟨pin, hPin, hRest⟩ := bind_eq_ok_iff.mp h
    exact (reaches_place hPin).trans (ih hRest)

/-- … and so does making the nets of a circuit. -/
theorem reaches_placeNets {b b' : Board} {circuit : String} {seen : List String} {ss : List Signal}
    (h : b.placeNets circuit seen ss = .ok b') : b.Reaches b' := by
  induction ss generalizing b seen with
  | nil =>
    obtain rfl : b = b' := Except.ok.inj h
    exact .refl b
  | cons s ss ih =>
    obtain ⟨pin, hPin, hRest⟩ := bind_eq_ok_iff.mp h
    split at hRest
    · cases hRest
    · exact (reaches_place hPin).trans (ih hRest)

end Board

/-- Whether a command makes a part on pins that are there. -/
def Command.wires : Command → Bool
  | .wire .. => true
  | _ => false

namespace Bench

-- ---------------------------------------------------------------------------
-- Handles and new things
-- ---------------------------------------------------------------------------

/-- A notice is nothing to anything but the trace. -/
theorem moves_note (b : Bench) (it : Notice) : Moves [] b (b.note it) :=
  .of_record rfl rfl rfl

theorem moves_noteAll (b : Bench) (ns : List Notice) : Moves [] b (b.noteAll ns) := by
  induction ns generalizing b with
  | nil => exact .refl b
  | cons it ns ih => exact (moves_note b it).first (ih (b.note it))

/-- Who is disowned keeps its place in the network. -/
theorem moves_disown (b : Bench) (o : Object) : Moves [] b (b.disown o) := by
  cases o with
  | part _ r | reporter r => exact .of_network rfl (Network.abides_disownReporter b.network r)
  | listener l => exact .of_record rfl rfl rfl
  | view i => exact (Move.views _).moves
  | pin _ => exact .refl b

/-- Letting go of what a handle stands for. -/
theorem moves_release (b : Bench) (handle : String) : Moves [] b (b.release handle) := by
  unfold release
  split
  next o _ =>
    exact (moves_disown b o).first (.of_network rfl (Network.abides_unbind (b.disown o).network handle))
  next => exact .refl b

/-- A handle is bound to a thing other than a pin. -/
theorem moves_bind (b : Bench) (handle : String) {o : Object} (ho : ∀ p, o ≠ .pin p) :
    Moves [] b (b.bind handle o) :=
  (moves_release b handle).first (.of_network rfl (Network.abides_bound _ handle ho))

theorem moves_bindAll (b : Bench) (handle : String) (parts : List Assembled) :
    Moves [] b (b.bindAll handle parts) := by
  unfold bindAll
  generalize parts.zipIdx = numbered
  induction numbered generalizing b with
  | nil => exact .refl b
  | cons it numbered ih => exact (moves_bind b _ (by simp)).first (ih _)

/-- A gate of a chip is the chip on new pins, which could be made, and the board has grown by them. -/
theorem newGate_eq_onNew {b b' : Bench} {name : String} {gate : Gate}
    (h : b.newGate name = .ok (gate, b')) :
    ∃ chip, b.catalog.create name = .ok chip ∧
      b.board.placeAll chip.signals = .ok (b.board.grow chip.signals) ∧
      gate = .cell (Cell.onNew b.board.size chip) ∧
      b' = { b with board := b.board.grow chip.signals } := by
  obtain ⟨chip, hCreate, h⟩ := bind_eq_ok_iff.mp h
  obtain ⟨⟨board, cell⟩, hFresh, h⟩ := bind_eq_ok_iff.mp h
  obtain ⟨rfl, rfl⟩ := Prod.mk.inj (Except.ok.inj h)
  obtain ⟨hPlace, rfl⟩ := Cell.fresh_eq_ok hFresh
  obtain rfl := Board.placeAll_eq_ok hPlace
  exact ⟨chip, hCreate, hPlace, rfl, rfl⟩

/-- A gate of a chip that is put to use is built on new pins. -/
theorem exists_moves_newGate {b b' : Bench} {name : String} {gate : Gate}
    (h : b.newGate name = .ok (gate, b')) (display : Bool) :
    ∃ ss, Moves [.build ss gate] b (b'.addPart gate display).2.2 := by
  obtain ⟨chip, -, hPlace, rfl, rfl⟩ := newGate_eq_onNew h
  exact ⟨chip.signals,
    (Move.build (Board.reaches_placeAll hPlace) (Cell.newOn_onNew b.board chip) display).moves⟩

/-- The parts of a setup are built one by one. -/
theorem exists_moves_assembleParts (b : Bench) (parts : List PartSetup) :
    ∃ es, Moves es b (b.assembleParts parts).2 ∧ ∀ e ∈ es, e.builds = true := by
  induction parts generalizing b with
  | nil => exact ⟨[], .refl b, by simp⟩
  | cons it parts ih =>
    unfold assembleParts
    split
    next => exact ⟨[], .refl b, by simp⟩
    next gate b' hGate =>
      -- the first part, and then the others on the bench that it leaves
      obtain ⟨ss, hFirst⟩ := exists_moves_newGate hGate it.hasDisplay
      obtain ⟨es, hRest, hBuilds⟩ := ih (b'.addPart gate it.hasDisplay).2.2
      exact ⟨_, hFirst.trans hRest, List.forall_mem_cons.mpr ⟨rfl, hBuilds⟩⟩

theorem exists_moves_assemble (b : Bench) (s : Setup) :
    ∃ es, Moves es b (b.assemble s).2 ∧ ∀ e ∈ es, e.builds = true := by
  obtain ⟨es, hParts, hBuilds⟩ := exists_moves_assembleParts b s.parts
  refine ⟨es, ?_, hBuilds⟩
  unfold assemble
  split
  next built b' hBuilt =>
    rw [hBuilt] at hParts
    exact hParts.last (moves_note b' _)
  next => exact hParts

-- ---------------------------------------------------------------------------
-- Operating parts
-- ---------------------------------------------------------------------------

/-- Fan-out of any kind has no effect on pins and parts. -/
theorem moves_after (b : Bench) (task : Network.Task) : Moves [] b (b.withNetwork (·.after task)) :=
  .of_network rfl (Network.abides_after b.network task)

/-- A write that leaves a record. -/
theorem moves_writePin (b : Bench) (p : PinId) (v : Value) : Moves [.write p v] b (b.writePin p v) :=
  (Move.write p v).moves.last (moves_note { b with board := b.board.write p v } _)

theorem moves_reportLossy (b : Bench) (part : Part) (message : String) :
    Moves [] b (b.reportLossy part message) :=
  (moves_note b _).first (moves_after _ (.announce part.reporter (some message)))

/-- An input is found, a value that does not fit is reported, and then the value is written. -/
theorem setInput_eq_ok {b b' : Bench} {part : Part} {pin : String} {v : Value}
    (h : b.setInput part pin v = (.ok (), b')) :
    ∃ p, b.board.find? part.gate.inputs pin = some p ∧
      b' = (if fits v (b.board.widthOf p) then b
        else b.reportLossy part (lossyMessage v (b.board.widthOf p) pin)).writePin p v := by
  unfold setInput at h
  split at h
  next => cases (Prod.mk.inj h).1
  next p hFind => exact ⟨p, hFind, (Prod.mk.inj h).2.symm⟩

/-- Where no input has the name, nothing happens at all. -/
theorem setInput_eq_error {b b' : Bench} {part : Part} {pin : String} {v : Value} {f : Fault}
    (h : b.setInput part pin v = (.error f, b')) :
    b.board.find? part.gate.inputs pin = none ∧ f = .unknownPin part.name pin ∧ b' = b := by
  unfold setInput at h
  split at h
  next hFind =>
    obtain ⟨hFault, hBench⟩ := Prod.mk.inj h
    exact ⟨hFind, (Except.error.inj hFault).symm, hBench.symm⟩
  next => cases (Prod.mk.inj h).1

/-- **What writing to an input does**: the pin is written, whoever hears that the value does not fit. -/
theorem moves_setInput {b b' : Bench} {part : Part} {pin : String} {v : Value}
    (h : b.setInput part pin v = (.ok (), b')) : ∃ p ∈ part.gate.inputs, Moves [.write p v] b b' := by
  obtain ⟨p, hFind, rfl⟩ := setInput_eq_ok h
  refine ⟨p, List.mem_of_find?_eq_some hFind, ?_⟩
  split
  · exact moves_writePin b p v
  · -- the report comes first, and has no effect
    exact (moves_reportLossy b part _).first (moves_writePin _ p v)

/-- A complaint gets an identity, if there is a reporter to pass it on. -/
theorem moves_raise (b : Bench) (view : View) (message : Option String) :
    Moves [] b (b.raise view message).2 := by
  unfold raise
  split
  next => exact .refl b
  next r _ =>
    split
    · exact Move.ident.moves.first (moves_after b.takeId.2 (.tell (.reporter r) _))
    · exact .refl b

/-- A view does what it does in the network, and then it may complain. -/
theorem moves_react (b : Bench) (view : View) : Moves [] b (b.react view) := by
  have hDeeds := moves_after b (.perform view.next.deeds)
  unfold react
  dsimp only
  split
  next => exact hDeeds.first (moves_raise _ view _)
  next => exact hDeeds

theorem moves_present (b : Bench) (part : Part) (view : View) : Moves [] b (b.present part view) := by
  have hPage : Moves [] b (b.turnPage part) := by
    unfold turnPage
    split
    next => exact (Move.views _).moves
    next => exact .refl b
  exact hPage.first (.of_record rfl rfl rfl)

/-- The part is held by the call while its view reacts. -/
theorem moves_respond (b : Bench) (part : Part) (view : View) : Moves [] b (b.respond part view) := by
  have hHeld : Moves [] b (b.withNetwork (·.beginCall part.reporter)) :=
    .of_network rfl (Network.abides_beginCall b.network part.reporter)
  exact (hHeld.first (moves_react _ view)).first (.of_network rfl (Network.abides_endCall ..))

/-- The pins are shown before the view reacts. -/
theorem moves_display (b : Bench) (part : Part) : Moves [] b (b.display part).2 := by
  unfold display
  split
  next => exact .refl b
  next view _ => exact (moves_present b part view).first (moves_respond _ part view)

/-- **What stepping a part does**: the part is started and its gate stepped, whoever hears of it, is shown
the pins or breaks down. -/
theorem moves_recompute (b : Bench) {i : Nat} (hi : i < b.parts.size) (part : Part) :
    Moves [.start i, .step part.gate] b (b.recompute i part).2 := by
  unfold recompute
  extract_lets b₁ done b₂
  -- the phase and the board; the notices of the step come after that
  have hStep : Moves [.start i, .step part.gate] b { b₁ with board := done.board } :=
    (Move.start hi).moves.trans (Move.step part.gate).moves
  have hStepped : Moves [.start i, .step part.gate] b b₂ := hStep.last (moves_noteAll _ done.notices)
  split
  next f _ =>
    -- the fault is noted, and then announced
    exact (hStepped.last (moves_note b₂ _)).last (moves_after _ (.announce part.reporter _))
  next => exact hStepped
  next =>
    have hShown := hStepped.last (moves_display b₂ part)
    split
    next b₃ hDisplay =>
      rw [hDisplay] at hShown
      exact hShown.last (moves_note b₃ _)
    next => exact hShown

-- ---------------------------------------------------------------------------
-- Commands
-- ---------------------------------------------------------------------------

/-- The pins of the part that a handle stands for. -/
def pinsOf (b : Bench) (handle : String) : List PinId :=
  (b.part? handle).elim [] fun it => it.2.gate.pins

/-- The pins that a command may write to. -/
def operated (b : Bench) : Command → List PinId
  | .set handle _ _ => b.pinsOf handle
  | .recompute handle => b.pinsOf handle
  | .poke handle _ _ => b.pinsOf handle
  | .pokePin handle _ => (b.pinId? handle).toList
  | _ => []

/-- The part that a command steps, if it steps one. -/
def started (b : Bench) : Command → List Nat
  | .recompute handle => ((b.part? handle).map Prod.fst).toList
  | _ => []

/-- **Nothing happens to pins and parts but what a command asks for**: it writes to no other pins than it
may, it starts the part that it steps, and a part is put on pins that are there only to wire it. -/
structure AskedFor (b : Bench) (c : Command) (es : List Effect) : Prop where
  pins : ∀ e ∈ es, ∀ p ∈ e.touched, p ∈ b.operated c
  wires : c.wires = false → ∀ e ∈ es, e.wires = false
  started : es.filterMap Effect.started? = b.started c

section AskedFor

variable {b : Bench} {c : Command} {es : List Effect}

/-- No effect needs no asking. -/
theorem askedFor_nil (hc : b.started c = []) : AskedFor b c [] :=
  ⟨by simp, by simp, hc.symm⟩

/-- To build parts touches no pin that was there, and starts nothing. -/
theorem askedFor_of_builds (hc : b.started c = []) (h : ∀ e ∈ es, e.builds = true) : AskedFor b c es := by
  have hBuild : ∀ e ∈ es, ∃ ss gate, e = .build ss gate := by
    intro e he
    cases e with
    | build ss gate => exact ⟨ss, gate, rfl⟩
    | _ => cases h _ he
  refine ⟨fun e he p hp => ?_, fun _ e he => ?_, ?_⟩
  · obtain ⟨ss, gate, rfl⟩ := hBuild e he
    cases hp
  · obtain ⟨ss, gate, rfl⟩ := hBuild e he
    rfl
  · rw [hc, List.filterMap_eq_nil_iff]
    intro e he
    obtain ⟨ss, gate, rfl⟩ := hBuild e he
    rfl

/-- To write to a pin that the command may write to. -/
theorem askedFor_write {p : PinId} (hc : b.started c = []) (hp : p ∈ b.operated c) (v : Value) :
    AskedFor b c [.write p v] where
  pins := by simpa [Effect.touched] using hp
  wires _ := List.forall_mem_singleton.mpr rfl
  started := hc.symm

end AskedFor

/-- A handle stands for a part if it is bound to the number of the part. -/
theorem part?_eq_some_iff {b : Bench} {handle : String} {i : Nat} {part : Part} :
    b.part? handle = some (i, part) ↔
      (∃ r, b.network.object? handle = some (.part i r)) ∧ b.parts[i]? = some part := by
  unfold part?
  cases b.network.object? handle with
  | none => simp
  | some o =>
    cases o with
    | part j r =>
      simp only [Option.map_eq_some_iff, Prod.mk.injEq, Option.some.injEq, Object.part.injEq]
      constructor
      · rintro ⟨it, hIt, rfl, rfl⟩
        exact ⟨⟨r, rfl, rfl⟩, hIt⟩
      · rintro ⟨⟨_, rfl, -⟩, hIt⟩
        exact ⟨part, hIt, rfl, rfl⟩
    | _ => simp

/-- A command that looks at a part, or does with it what is nothing to pins and parts. -/
theorem moves_onPart {b : Bench} {handle : String} {f : Nat → Part → Reply × Bench}
    (h : ∀ i part, Moves [] b (f i part).2) : Moves [] b (b.onPart handle f).2 := by
  unfold onPart
  split
  next => exact h _ _
  next => exact .refl b

/-- A command on a part does what it asks for if it does so with the part. -/
theorem exists_moves_onPart {b : Bench} {handle : String} {f : Nat → Part → Reply × Bench} {c : Command}
    (hNone : b.part? handle = none → b.started c = [])
    (h : ∀ i part, b.part? handle = some (i, part) → ∃ es, Moves es b (f i part).2 ∧ AskedFor b c es) :
    ∃ es, Moves es b (b.onPart handle f).2 ∧ AskedFor b c es := by
  unfold onPart
  cases hPart : b.part? handle with
  -- a handle that stands for no part has nothing to start
  | none => exact ⟨[], .refl b, askedFor_nil (hNone hPart)⟩
  | some it => exact h it.1 it.2 hPart

theorem moves_onReporter {b : Bench} {handle : String} {f : ReporterId → Reply × Bench}
    (h : ∀ r, Moves [] b (f r).2) : Moves [] b (b.onReporter handle f).2 := by
  unfold onReporter
  split
  next => exact h _
  next => exact .refl b

/-- A part of a chip, a circuit or a setup is built, or nothing happens. -/
theorem exists_moves_makePart (b : Bench) (handle chip : String) (display : Bool) :
    ∃ es, Moves es b (b.makePart handle chip display).2 ∧ ∀ e ∈ es, e.builds = true := by
  unfold makePart
  split
  next gate b' hGate =>
    obtain ⟨ss, hBuilt⟩ := exists_moves_newGate hGate display
    exact ⟨_, hBuilt.last (moves_bind _ _ (by simp)), List.forall_mem_singleton.mpr rfl⟩
  next => exact ⟨[], .refl b, by simp⟩

theorem exists_moves_makeCircuit (b : Bench) (handle : String) (plan : Plan) (display : Bool) :
    ∃ es, Moves es b (b.makeCircuit handle plan display).2 ∧ ∀ e ∈ es, e.builds = true := by
  unfold makeCircuit
  split
  next board circuit hBuild =>
    have hNew := Plan.newOn_of_build hBuild
    obtain ⟨hNets, -⟩ := Plan.build_eq_ok_iff.mp hBuild
    have hReach := Board.reaches_placeNets hNets
    obtain ⟨-, -, rfl⟩ := Board.placeNets_eq_ok_iff.mp hNets
    -- it does not matter that the notice comes after the pins
    have hBuilt := (moves_note b plan.notice).first
      (Move.build (b := b.note plan.notice) hReach hNew display).moves
    exact ⟨_, hBuilt.last (moves_bind _ _ (by simp)), List.forall_mem_singleton.mpr rfl⟩
  next => exact ⟨[], .refl b, by simp⟩

theorem exists_moves_makeSetup (b : Bench) (handle text : String) :
    ∃ es, Moves es b (b.makeSetup handle text).2 ∧ ∀ e ∈ es, e.builds = true := by
  unfold makeSetup
  split
  next => exact ⟨[], .refl b, by simp⟩
  next setup _ =>
    obtain ⟨es, hBuilt, hBuilds⟩ := exists_moves_assemble b setup
    refine ⟨es, ?_, hBuilds⟩
    split
    next parts b' hEq =>
      rw [hEq] at hBuilt
      exact hBuilt.last (moves_bindAll b' handle parts)
    next f b' hEq =>
      rw [hEq] at hBuilt
      exact hBuilt

/-- Letting go of what a handle stands for has nothing to do with the board. -/
theorem release_withBoard (b : Bench) (board : Board) (handle : String) :
    ({ b with board := board } : Bench).release handle = { b.release handle with board := board } := by
  unfold release
  cases b.network.object? handle with
  | none => rfl
  | some o => cases o <;> rfl

/-- A pin that belongs to no part: what the handle stood for is let go of, and the pin made under it. -/
theorem moves_makePin {b : Bench} {s : Signal} {pin : Pin} (h : Pin.ofSignal s = .ok pin)
    (handle : String) :
    Moves [.pin s] b ({ b with board := b.board.place pin }.bind handle (.pin b.board.size)) := by
  have hBoard : (b.release handle).board = b.board := (moves_release b handle).board
  have hMade := (moves_release b handle).first (Move.pin h handle).moves
  rw [hBoard] at hMade
  -- the pin is made before the handle is let go of, which is the same
  rw [Bench.bind, release_withBoard]
  exact hMade

/-- Pins that are found by handles have handles. -/
theorem names_of_mapM {b : Bench} {handles : List String} {ps : List PinId}
    (h : handles.mapM b.pinId? = some ps) : ∀ p ∈ ps, ∃ handle, b.Names handle p := by
  induction handles generalizing ps with
  | nil =>
    obtain rfl : [] = ps := Option.some.inj h
    simp
  | cons handle handles ih =>
    rw [List.mapM_cons] at h
    obtain ⟨p, hp, h⟩ := Option.bind_eq_some_iff.mp h
    obtain ⟨qs, hqs, h⟩ := Option.bind_eq_some_iff.mp h
    obtain rfl : p :: qs = ps := Option.some.inj h
    refine List.forall_mem_cons.mpr ⟨⟨handle, ?_⟩, ih hqs⟩
    unfold pinId? at hp
    split at hp
    next hObject => exact Option.some.inj hp ▸ hObject
    next => cases hp

/-- A part that is wired is on pins that have handles. -/
theorem exists_moves_makeWired (b : Bench) (handle chip : String) (inputs outputs : List String)
    (display : Bool) :
    ∃ es, Moves es b (b.makeWired handle chip inputs outputs display).2 ∧
      (∀ e ∈ es, e.touched = []) ∧ es.filterMap Effect.started? = [] := by
  unfold makeWired
  split
  next ins outs hIns hOuts =>
    split
    next cell hCell =>
      obtain ⟨it, -, hWire⟩ := bind_eq_ok_iff.mp hCell
      obtain ⟨-, -, hWire⟩ := bind_eq_ok_iff.mp hWire
      obtain ⟨-, -, hWire⟩ := bind_eq_ok_iff.mp hWire
      -- the board stays as it is, and the pins are the ones that the handles stand for
      have hUsed : ∀ p ∈ (Gate.cell cell).pins, ∃ handle, b.Names handle p := by
        rw [← Except.ok.inj hWire]
        exact List.forall_mem_append.mpr ⟨names_of_mapM hIns, names_of_mapM hOuts⟩
      exact ⟨_, (Move.wire hUsed display).moves.last (moves_bind _ _ (by simp)),
        List.forall_mem_singleton.mpr rfl, rfl⟩
    next => exact ⟨[], .refl b, by simp, rfl⟩
  next => exact ⟨[], .refl b, by simp, rfl⟩

theorem moves_dropHandle (b : Bench) (handle : String) : Moves [] b (b.dropHandle handle).2 := by
  unfold dropHandle
  split
  · exact moves_release b handle
  · exact .refl b

/-- A part gets its view, and the view its reporter. -/
theorem moves_attachView (b : Bench) (handle view : String) :
    Moves [] b (b.attachView handle view).2 := by
  unfold attachView
  split
  next => exact .refl b
  next v _ _ =>
    refine moves_onPart fun i part => ?_
    exact (Move.attach i v).moves.first (Move.views _).moves

theorem moves_onRegistration {b : Bench} {handle listener : String}
    {f : Network → ReporterId → Target → Network} (hf : ∀ n r t, Network.Abides n (f n r t)) :
    Moves [] b (b.onRegistration handle listener f).2 := by
  unfold onRegistration
  split
  next => exact .refl b
  next t _ => exact moves_onReporter fun r => .of_network rfl (hf b.network r t)

/-- An event gets its identity first, whether or not there is a reporter to tell. -/
theorem moves_occur (b : Bench) (handle source : String) (message : Option String) :
    Moves [] b (b.occur handle source message).2 :=
  Move.ident.moves.first (moves_onReporter fun r => moves_after b.takeId.2 (.tell (.reporter r) _))

/-- A value for an input goes to a pin of the part. -/
theorem exists_moves_set (b : Bench) (handle pin : String) (v : Value) :
    ∃ es, Moves es b (b.perform (.set handle pin v)).2 ∧ AskedFor b (.set handle pin v) es := by
  refine exists_moves_onPart (fun _ => rfl) fun i part hPart => ?_
  split
  next b' hSet =>
    obtain ⟨p, hp, hMoves⟩ := moves_setInput hSet
    have hPins : p ∈ b.pinsOf handle := by
      rw [pinsOf, hPart]
      exact Gate.mem_pins_of_input hp
    exact ⟨_, hMoves, askedFor_write rfl hPins v⟩
  next b' hSet =>
    obtain ⟨-, -, rfl⟩ := setInput_eq_error hSet
    exact ⟨[], .refl _, askedFor_nil rfl⟩

/-- Stepping the part that a handle stands for starts it, and touches no pins but its own. -/
theorem exists_moves_recompute (b : Bench) (handle : String) :
    ∃ es, Moves es b (b.perform (.recompute handle)).2 ∧ AskedFor b (.recompute handle) es := by
  refine exists_moves_onPart (fun hNone => by rw [started, hNone]; rfl) fun i part hPart => ?_
  have hi : i < b.parts.size :=
    (Array.getElem?_eq_some_iff.mp (part?_eq_some_iff.mp hPart).2).1
  have hAsked : AskedFor b (.recompute handle) [.start i, .step part.gate] := by
    refine ⟨?_, fun _ => by simp [Effect.wires], by rw [started, hPart]; rfl⟩
    simp [Effect.touched, operated, pinsOf, hPart]
  refine ⟨_, ?_, hAsked⟩
  have hStepped := moves_recompute b hi part
  -- the reply depends on how the step ended, and the bench does not
  split
  all_goals
    rename_i hEq
    rw [hEq] at hStepped
    exact hStepped

/-- A poke goes to a pin of the part too, be it an input, an output or inside. -/
theorem exists_moves_poke (b : Bench) (handle pin : String) (v : Value) :
    ∃ es, Moves es b (b.perform (.poke handle pin v)).2 ∧ AskedFor b (.poke handle pin v) es := by
  refine exists_moves_onPart (fun _ => rfl) fun i part hPart => ?_
  unfold pokePart
  split
  next p hFind =>
    have hMem : p ∈ part.gate.inputs ++ part.gate.outputs ++ part.gate.internals :=
      List.mem_of_find?_eq_some hFind
    rw [List.mem_append, List.mem_append] at hMem
    have hPins : p ∈ b.pinsOf handle := by
      rw [pinsOf, hPart]
      rcases hMem with (hInput | hOutput) | hInternal
      · exact Gate.mem_pins_of_input hInput
      · exact Gate.mem_pins_of_output hOutput
      · exact Gate.mem_pins_of_internal hInternal
    exact ⟨_, moves_writePin b p v, askedFor_write rfl hPins v⟩
  next => exact ⟨[], .refl b, askedFor_nil rfl⟩

/-- **Every command is made of moves**, whose effects it asks for. -/
theorem exists_moves_perform (b : Bench) (c : Command) :
    ∃ es, Moves es b (b.perform c).2 ∧ AskedFor b c es := by
  -- commands that build parts, and those that operate pins; all others have no effect
  cases c with
  | part handle chip display =>
    obtain ⟨es, hMoves, hBuilds⟩ := exists_moves_makePart b handle chip display
    exact ⟨es, hMoves, askedFor_of_builds rfl hBuilds⟩
  | circuit handle plan display =>
    obtain ⟨es, hMoves, hBuilds⟩ := exists_moves_makeCircuit b handle plan display
    exact ⟨es, hMoves, askedFor_of_builds rfl hBuilds⟩
  | setup handle text =>
    obtain ⟨es, hMoves, hBuilds⟩ := exists_moves_makeSetup b handle text
    exact ⟨es, hMoves, askedFor_of_builds rfl hBuilds⟩
  | wire handle chip inputs outputs display =>
    obtain ⟨es, hMoves, hTouched, hStarted⟩ := exists_moves_makeWired b handle chip inputs outputs display
    exact ⟨es, hMoves, fun e he p hp => by simp [hTouched e he] at hp, nofun, hStarted⟩
  | pin handle signal =>
    simp only [perform, makePin]
    split
    next pin hPin => exact ⟨_, moves_makePin hPin handle, by simp [Effect.touched], by simp [Effect.wires], rfl⟩
    next => exact ⟨[], .refl b, askedFor_nil rfl⟩
  | set handle pin value => exact exists_moves_set b handle pin value
  | recompute handle => exact exists_moves_recompute b handle
  | poke handle pin value => exact exists_moves_poke b handle pin value
  | pokePin handle value =>
    simp only [perform]
    split
    next p hPin => exact ⟨_, moves_writePin b p value, askedFor_write rfl (by simp [operated, hPin]) value⟩
    next => exact ⟨[], .refl b, askedFor_nil rfl⟩
  | reporter handle name =>
    exact ⟨[], (Move.reporter name).moves.first (moves_bind _ _ (by simp)), askedFor_nil rfl⟩
  | listener handle crashes script =>
    have hAdd : Moves [] b (b.addListener { handle, script, crashes }).2 := .of_record rfl rfl rfl
    exact ⟨[], hAdd.first (moves_bind _ _ (by simp)), askedFor_nil rfl⟩
  | view handle deaf complaint crashes script =>
    exact ⟨[], (Move.views _).moves.first (moves_bind _ _ (by simp)), askedFor_nil rfl⟩
  | drop handle => exact ⟨[], moves_dropHandle b handle, askedFor_nil rfl⟩
  | input handle pin | output handle pin =>
    refine ⟨[], moves_onPart fun _ part => ?_, askedFor_nil rfl⟩
    split <;> exact .refl b
  | outputs handle | look handle => exact ⟨[], moves_onPart fun _ _ => .refl b, askedFor_nil rfl⟩
  | peek handle | dump handle indented =>
    refine ⟨[], ?_, askedFor_nil rfl⟩
    simp only [perform]
    split <;> exact .refl b
  | attach handle view => exact ⟨[], moves_attachView b handle view, askedFor_nil rfl⟩
  | add handle listener =>
    exact ⟨[], moves_onRegistration Network.abides_register, askedFor_nil rfl⟩
  | remove handle listener =>
    exact ⟨[], moves_onRegistration Network.abides_unregister, askedFor_nil rfl⟩
  | notify handle message =>
    exact ⟨[], moves_onReporter fun r => moves_after b (.announce r message), askedFor_nil rfl⟩
  | occur handle source message => exact ⟨[], moves_occur b handle source message, askedFor_nil rfl⟩
  | count handle => exact ⟨[], moves_onReporter fun _ => .refl b, askedFor_nil rfl⟩
  | raise view message =>
    refine ⟨[], ?_, askedFor_nil rfl⟩
    simp only [perform]
    split
    · exact moves_raise b _ message
    · exact .refl b

/-- Every command starts with a trace of its own, which is nothing to board and parts. -/
def cleared (b : Bench) : Bench :=
  b.withNetwork fun n => { n with trace := #[] }

/-- What a command asks for does not depend on the trace. -/
theorem askedFor_cleared {b : Bench} {c : Command} {es : List Effect} (h : AskedFor b.cleared c es) :
    AskedFor b c es := by
  have hOperated : b.cleared.operated c = b.operated c := by cases c <;> rfl
  have hStarted : b.cleared.started c = b.started c := by cases c <;> rfl
  exact ⟨hOperated ▸ h.pins, h.wires, hStarted ▸ h.started⟩

/-- The same for a command with a trace of its own. -/
theorem exists_moves_run (b : Bench) (c : Command) :
    ∃ es, Moves es b (b.run c).2 ∧ AskedFor b c es := by
  obtain ⟨es, hMoves, hAsked⟩ := exists_moves_perform b.cleared c
  have hClear : Moves [] b b.cleared := .of_record rfl rfl rfl
  exact ⟨es, hClear.first hMoves, askedFor_cleared hAsked⟩

-- ---------------------------------------------------------------------------
-- Runs
-- ---------------------------------------------------------------------------

/-- The bench after some commands. -/
def runAll (b : Bench) (cs : List Command) : Bench :=
  cs.foldl (fun b c => (b.run c).2) b

/-- What one run of commands leaves, another goes on with. -/
theorem runAll_append (b : Bench) (cs cs' : List Command) :
    b.runAll (cs ++ cs') = (b.runAll cs).runAll cs' :=
  List.foldl_append

/-- **What every command keeps is kept by every run.** -/
theorem runAll_induction {P : Bench → Prop} (hRun : ∀ b c, P b → P (b.run c).2) {b : Bench} (hb : P b)
    (cs : List Command) : P (b.runAll cs) := by
  induction cs generalizing b with
  | nil => exact hb
  | cons c cs ih => exact ih (hRun b c hb)

/-- Commands lead the board ahead … -/
theorem reaches_run (b : Bench) (c : Command) : b.board.Reaches (b.run c).2.board := by
  obtain ⟨es, hMoves, -⟩ := exists_moves_run b c
  exact hMoves.reaches

theorem reaches_runAll (b : Bench) (cs : List Command) : b.board.Reaches (b.runAll cs).board :=
  runAll_induction (P := fun b' => b.board.Reaches b'.board) (fun b' c hb => hb.trans (reaches_run b' c))
    (.refl _) cs

/-- … and leave every part its reporter. -/
theorem Speaks.run {b : Bench} (h : b.Speaks) (c : Command) : (b.run c).2.Speaks := by
  obtain ⟨es, hMoves, -⟩ := exists_moves_run b c
  exact hMoves.speaks h

theorem Speaks.runAll {b : Bench} (h : b.Speaks) (cs : List Command) : (b.runAll cs).Speaks :=
  runAll_induction (fun _ c hb => hb.run c) h cs

theorem speaks_empty (catalog : Catalog) : Speaks { catalog } := by
  intro i part hPart
  simp at hPart

/-- A command starts the part that it steps, and no other. -/
theorem running_run_iff (b : Bench) (c : Command) (i : Nat) :
    (b.run c).2.Running i ↔ i ∈ b.started c ∨ b.Running i := by
  obtain ⟨es, hMoves, hAsked⟩ := exists_moves_run b c
  rw [hMoves.running_iff, hAsked.started]

end Bench

end Breadboard
