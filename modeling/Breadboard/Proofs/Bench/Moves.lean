import Breadboard.Bench.Operation
import Breadboard.Proofs.Circuit.Footprint
import Breadboard.Proofs.Network.Lasting

/-!
# Breadboard — moves on a bench

Whatever is done on a bench is done by small **moves** (`Bench.Move`). Most of them are nothing to pins and
parts: the network changes, but for what lasts in it; views change; an identity is handed out; a reporter is
added; a part gets a view. The others have an **effect** (`Bench.Effect`): a pin is made under a handle, a
pin is written, a gate is stepped, a part is built on new pins or wired to pins that have handles, a part is
started.

What holds of all that is done is shown move by move, here and in the modules that build on this one:

* `Moves.board`, `Moves.reaches` — the board is the one that the effects lead to, and so goes only ahead;
* `Moves.speaks` — every part has a reporter that speaks with its identity and in its name;
* `Moves.running_iff` — a part is running exactly if it has been started.
-/

namespace Breadboard

/-- Making a pin leads ahead. -/
theorem Board.reaches_place {b : Board} {s : Signal} {pin : Pin} (h : Pin.ofSignal s = .ok pin) :
    b.Reaches (b.place pin) :=
  ⟨[.place s], by simp only [List.foldl_cons, List.foldl_nil, change, h]⟩

namespace Bench

/-- The handle stands for that pin. -/
def Names (b : Bench) (handle : String) (p : PinId) : Prop :=
  b.network.object? handle = some (.pin p)

-- ---------------------------------------------------------------------------
-- Moves
-- ---------------------------------------------------------------------------

/-- What a move does to pins and parts. -/
inductive Effect where
  /-- A pin is made under a handle. -/
  | pin (s : Signal)
  /-- A pin is written. -/
  | write (p : PinId) (v : Value)
  /-- A gate is stepped. -/
  | step (gate : Gate)
  /-- A part is built on new pins with those signals. -/
  | build (ss : List Signal) (gate : Gate)
  /-- A part is put on pins that are there. -/
  | wire (gate : Gate)
  /-- A part goes into the running phase. -/
  | start (i : Nat)

namespace Effect

/-- The board after an effect. -/
def onBoard (b : Board) : Effect → Board
  | .pin s => b.change (.place s)
  | .write p v => b.write p v
  | .step gate => (gate.stepped b).board
  | .build ss _ => b.grow ss
  | .wire _ => b
  | .start _ => b

/-- The pins that were there and may have changed. -/
def touched : Effect → List PinId
  | .write p _ => [p]
  | .step gate => gate.pins
  | _ => []

/-- The gate of the part that is made. -/
def gate? : Effect → Option Gate
  | .build _ gate => some gate
  | .wire gate => some gate
  | _ => none

/-- Whether a part is put on pins that are there. -/
def wires : Effect → Bool
  | .wire _ => true
  | _ => false

/-- Whether a part is built on new pins. -/
def builds : Effect → Bool
  | .build _ _ => true
  | _ => false

/-- The part that is started. -/
def started? : Effect → Option Nat
  | .start i => some i
  | _ => none

end Effect

/-- **A small change of a bench**, and the effect that it has on pins and parts, if it has one. -/
inductive Move (b : Bench) : Option Effect → Bench → Prop
  /-- The network changes, but what lasts in it. -/
  | network {n : Network} (h : b.network.Abides n) : Move b none { b with network := n }
  | views (views : Array View) : Move b none { b with views := views }
  | ident : Move b none b.takeId.2
  | reporter (name : String) : Move b none (b.addReporter name).2
  | attach (i view : Nat) :
    Move b none { b with parts := b.parts.modify i fun p => { p with view := some view } }
  | pin {s : Signal} {pin : Pin} (h : Pin.ofSignal s = .ok pin) (handle : String) :
    Move b (some (.pin s))
      { b with board := b.board.place pin, network := b.network.bound handle (.pin b.board.size) }
  | write (p : PinId) (v : Value) : Move b (some (.write p v)) { b with board := b.board.write p v }
  | step (gate : Gate) :
    Move b (some (.step gate)) { b with board := (gate.stepped b.board).board }
  | build {ss : List Signal} {gate : Gate} (hReach : b.board.Reaches (b.board.grow ss))
    (hNew : gate.NewOn b.board (b.board.grow ss)) (display : Bool) :
    Move b (some (.build ss gate)) ({ b with board := b.board.grow ss }.addPart gate display).2.2
  | wire {gate : Gate} (h : ∀ p ∈ gate.pins, ∃ handle, b.Names handle p) (display : Bool) :
    Move b (some (.wire gate)) (b.addPart gate display).2.2
  | start {i : Nat} (h : i < b.parts.size) :
    Move b (some (.start i)) { b with parts := b.parts.modify i fun p => { p with phase := .running } }

/-- Moves one after the other, and the effects that they have. -/
inductive Moves : List Effect → Bench → Bench → Prop
  | refl (b : Bench) : Moves [] b b
  | next {es : List Effect} {e : Option Effect} {b b' b'' : Bench} (h : Moves es b b') (h' : Move b' e b'') :
    Moves (es ++ e.toList) b b''

section Relations

variable {es es' : List Effect} {b b' b'' : Bench}

theorem Move.moves {e : Option Effect} (h : Move b e b') : Moves e.toList b b' :=
  .next (.refl b) h

/-- Moves after moves have the effects of both. -/
theorem Moves.trans (h : Moves es b b') (h' : Moves es' b' b'') : Moves (es ++ es') b b'' := by
  induction h' with
  | refl => rwa [List.append_nil]
  | next _ hMove ih =>
    rw [← List.append_assoc]
    exact .next (ih h) hMove

/-- What comes after moves without effect has all the effect. -/
theorem Moves.first (h : Moves [] b b') (h' : Moves es b' b'') : Moves es b b'' :=
  h.trans h'

/-- What comes before moves without effect has it. -/
theorem Moves.last (h : Moves es b b') (h' : Moves [] b' b'') : Moves es b b'' := by
  have hBoth := h.trans h'
  rwa [List.append_nil] at hBoth

/-- Nothing has changed but the network, and there all that lasts is the same. -/
theorem Moves.of_network (hRest : b' = { b with network := b'.network })
    (h : b.network.Abides b'.network) : Moves [] b b' := by
  rw [hRest]
  exact (Move.network h).moves

/-- Nothing has changed but what the network has on record, in its scripts or of its listeners. -/
theorem Moves.of_record (hRest : b' = { b with network := b'.network })
    (hReporters : b'.network.reporters = b.network.reporters)
    (hHandles : b'.network.handles = b.network.handles) : Moves [] b b' :=
  .of_network hRest (.of_eq hReporters hHandles)

end Relations

-- ---------------------------------------------------------------------------
-- What moves do
-- ---------------------------------------------------------------------------

section Effects

variable {es : List Effect} {b b' : Bench}

/-- **The board is the one that the effects lead to.** -/
theorem Moves.board (h : Moves es b b') : b'.board = es.foldl Effect.onBoard b.board := by
  induction h with
  | refl => rfl
  | next _ hMove ih =>
    rw [List.foldl_append, ← ih]
    cases hMove with
    -- that the signal is accepted is what the move needs and the change of the board asks
    | pin hPin handle =>
      simp only [Option.toList_some, List.foldl_cons, List.foldl_nil, Effect.onBoard, Board.change, hPin]
    | _ => rfl

/-- **The board only ever goes ahead.** -/
theorem Moves.reaches (h : Moves es b b') : b.board.Reaches b'.board := by
  induction h with
  | refl => exact .refl _
  | next _ hMove ih =>
    cases hMove with
    | pin hPin handle => exact ih.trans (Board.reaches_place hPin)
    | write p v => exact ih.change (.write p v)
    | step gate => exact ih.change (.step gate)
    | build hReach _ display => exact ih.trans hReach
    | _ => exact ih

/-- Every part has a reporter that speaks with its identity and in its name. -/
def Speaks (b : Bench) : Prop :=
  ∀ (i : Nat) (part : Part), b.parts[i]? = some part →
    b.network.voices[part.reporter]? = some (part.id, part.name)

/-- To change a part in what its events do not carry changes nothing about who speaks for it. -/
theorem Speaks.modify (h : b.Speaks) (i : Nat) {f : Part → Part}
    (hf : ∀ p, (f p).id = p.id ∧ (f p).gate = p.gate ∧ (f p).reporter = p.reporter) :
    Speaks { b with parts := b.parts.modify i f } := by
  intro j part hPart
  rw [Array.getElem?_modify] at hPart
  split at hPart
  · obtain ⟨old, hOld, rfl⟩ := Option.map_eq_some_iff.mp hPart
    obtain ⟨hId, hGate, hReporter⟩ := hf old
    rw [Part.name, hId, hGate, hReporter]
    exact h j old hOld
  · exact h j part hPart

/-- Who spoke before a reporter was added still does. -/
theorem Speaks.addReporter (h : b.Speaks) (name : String) : (b.addReporter name).2.Speaks := by
  intro i part hPart
  have hVoice := h i part hPart
  obtain ⟨hLt, -⟩ := List.getElem?_eq_some_iff.mp hVoice
  have hVoices : (b.addReporter name).2.network.voices = b.network.voices ++ [(b.nextId, name)] := by
    simp [Bench.addReporter, takeId, withNetwork, Network.voices]
  rw [hVoices, List.getElem?_append_left hLt]
  exact hVoice

/-- A new part gets a new reporter with it, of the same identity and name. -/
theorem Speaks.addPart (h : b.Speaks) (gate : Gate) (display : Bool) :
    (b.addPart gate display).2.2.Speaks := by
  intro i part hPart
  have hParts : (b.addPart gate display).2.2.parts = b.parts.push
      { id := b.nextId, gate, hasDisplay := display, reporter := b.network.reporters.length } := rfl
  rw [hParts, Array.getElem?_push] at hPart
  split at hPart
  · -- the new part, whose reporter has the number that the list had as its length
    obtain rfl := Option.some.inj hPart
    show (b.addReporter gate.name).2.network.voices[b.network.reporters.length]? = _
    simp [Bench.addReporter, takeId, withNetwork, Network.voices, Part.name]
  · exact h.addReporter gate.name i part hPart

theorem Move.speaks {e : Option Effect} (h : Move b e b') (hSpeaks : b.Speaks) : b'.Speaks := by
  cases h with
  -- the network may change in all but what the reporters speak with
  | network hAbides =>
    intro j part hPart
    have hVoice := hSpeaks j part hPart
    rwa [← hAbides.voices] at hVoice
  | reporter name => exact hSpeaks.addReporter name
  | build _ _ display => exact Speaks.addPart (b := { b with board := _ }) hSpeaks _ display
  | wire _ display => exact hSpeaks.addPart _ display
  | attach i view => exact hSpeaks.modify i fun _ => ⟨rfl, rfl, rfl⟩
  | start _ => exact hSpeaks.modify _ fun _ => ⟨rfl, rfl, rfl⟩
  | _ => exact hSpeaks

/-- **Whoever speaks for a part goes on doing so.** -/
theorem Moves.speaks (h : Moves es b b') (hSpeaks : b.Speaks) : b'.Speaks := by
  induction h with
  | refl => exact hSpeaks
  | next _ hMove ih => exact hMove.speaks (ih hSpeaks)

/-- The part with number `i` is running. -/
def Running (b : Bench) (i : Nat) : Prop :=
  ∃ part, b.parts[i]? = some part ∧ part.phase = .running

/-- A new part is not running, and there was none in its place. -/
theorem running_addPart_iff (b : Bench) (gate : Gate) (display : Bool) (i : Nat) :
    (b.addPart gate display).2.2.Running i ↔ b.Running i := by
  have hParts : (b.addPart gate display).2.2.parts = b.parts.push
      { id := b.nextId, gate, hasDisplay := display, reporter := b.network.reporters.length } := rfl
  simp only [Running, hParts, Array.getElem?_push]
  split
  next hNew => simp [hNew]
  next => rfl

/-- A move starts the part that it is said to start, and stops none. -/
theorem Move.running_iff {e : Option Effect} (h : Move b e b') (i : Nat) :
    b'.Running i ↔ i ∈ e.toList.filterMap Effect.started? ∨ b.Running i := by
  cases h with
  | build _ _ display =>
    rw [running_addPart_iff]
    simp [Running, Effect.started?]
  | wire _ display =>
    rw [running_addPart_iff]
    simp [Effect.started?]
  | attach j view =>
    simp only [Running, Array.getElem?_modify]
    split <;> cases b.parts[i]? <;> simp
  | @start j hj =>
    simp only [Running, Array.getElem?_modify]
    by_cases hij : j = i
    · subst hij
      simp [hj, Effect.started?]
    · simp [hij, Ne.symm hij, Effect.started?]
  | _ => simp [Running, takeId, Bench.addReporter, withNetwork, Effect.started?]

/-- **A part is running exactly if it has been started.** -/
theorem Moves.running_iff (h : Moves es b b') (i : Nat) :
    b'.Running i ↔ i ∈ es.filterMap Effect.started? ∨ b.Running i := by
  induction h with
  | refl => simp
  | next _ hMove ih =>
    -- started by the last move, or before it
    rw [hMove.running_iff, ih, List.filterMap_append, List.mem_append]
    tauto

end Effects

end Bench

end Breadboard
