import Breadboard.Proofs.Bench.Commands

/-!
# Breadboard — parts and their pins

What commands do to the board, to the gates of the parts on it and to the handles of pins. Pins and parts
are only ever added; a part keeps its gate; a command changes the pins of the one part that it operates,
if it operates one; and a part that it makes is on new pins or on pins that have handles (`extends_run`).
Only wiring does the latter: any other command that makes a part puts it on new pins, and gives nobody a
handle of them (`builds_run`). So a part that has not been wired never shares a pin with another one
(`Sheltered.runAll`).
-/

namespace Breadboard

namespace Bench

/-- The gates of the parts, in the order in which the parts were made. -/
def gates (b : Bench) : List Gate :=
  b.parts.toList.map Part.gate

theorem gates_getElem? (b : Bench) (i : Nat) : b.gates[i]? = b.parts[i]?.map Part.gate := by
  rw [gates, List.getElem?_map, Array.getElem?_toList]

/-- To change a part in anything but its gate changes no gate. -/
theorem gates_modify (b : Bench) (i : Nat) {f : Part → Part} (hf : ∀ p, (f p).gate = p.gate) :
    (b.parts.modify i f).toList.map Part.gate = b.gates := by
  refine List.ext_getElem? fun j => ?_
  rw [gates_getElem?, List.getElem?_map, Array.getElem?_toList, Array.getElem?_modify]
  split
  · cases b.parts[j]? <;> simp [hf]
  · rfl

/-- A new part comes last. -/
theorem gates_addPart (b : Bench) (gate : Gate) (display : Bool) :
    (b.addPart gate display).2.2.gates = b.gates ++ [gate] := by
  simp [gates, addPart, addReporter, takeId, withNetwork]

-- ---------------------------------------------------------------------------
-- Changes of board, parts and handles
-- ---------------------------------------------------------------------------

/-- Parts with the gates `new` have been added, and pins. -/
structure Extends (ps : List PinId) (new : List Gate) (b b' : Bench) : Prop where
  size_le : b.board.size ≤ b'.board.size
  /-- Of the pins that were there, at most those of `ps` have changed. -/
  pin? : ∀ p < b.board.size, p ∉ ps → b'.board.pin? p = b.board.pin? p
  gates : b'.gates = b.gates ++ new
  names : ∀ handle p, b'.Names handle p → b.Names handle p ∨ b.board.size ≤ p ∧ p < b'.board.size
  /-- The gates that have been added are on new pins and on pins that had a handle. -/
  used : ∀ g ∈ new, ∀ p ∈ g.pins,
    b.board.size ≤ p ∧ p < b'.board.size ∨ ∃ handle, b.Names handle p

/-- Besides, the gates that have been added are on new pins, each on its own, and nobody has got a handle of
these pins. -/
structure Builds (ps : List PinId) (new : List Gate) (b b' : Bench) : Prop extends
    Extends ps new b b' where
  newOn : ∀ g ∈ new, g.NewOn b.board b'.board
  apart : new.Pairwise fun g g' => g.pins.Disjoint g'.pins
  unnamed : ∀ g ∈ new, ∀ p ∈ g.pins, ∀ handle, b'.Names handle p → b.Names handle p

section Relations

variable {ps : List PinId} {new new' : List Gate} {b b' b'' : Bench}

/-- Where only pins of `ps` have changed, nothing has been added. -/
theorem Extends.of_board (hSize : b'.board.size = b.board.size)
    (hPins : ∀ q, q ∉ ps → b'.board.pin? q = b.board.pin? q) (hGates : b'.gates = b.gates)
    (hNames : ∀ handle p, b'.Names handle p → b.Names handle p) : Extends ps [] b b' where
  size_le := Nat.le_of_eq hSize.symm
  pin? q _ hq := hPins q hq
  gates := by rw [hGates, List.append_nil]
  names handle p hName := .inl (hNames handle p hName)
  used := by simp

/-- Board and gates are the same, and no pin has got a handle. -/
theorem Extends.of_eq (hBoard : b'.board = b.board) (hGates : b'.gates = b.gates)
    (hNames : ∀ handle p, b'.Names handle p → b.Names handle p) : Extends ps [] b b' :=
  .of_board (congrArg Board.size hBoard) (fun q _ => congrArg (Board.pin? · q) hBoard) hGates hNames

/-- What is added after what was added is added to it. -/
theorem Extends.trans (h : Extends ps new b b') (h' : Extends ps new' b' b'') :
    Extends ps (new ++ new') b b'' where
  size_le := Nat.le_trans h.size_le h'.size_le
  pin? p hp hps := (h'.pin? p (Nat.lt_of_lt_of_le hp h.size_le) hps).trans (h.pin? p hp hps)
  gates := by rw [h'.gates, h.gates, List.append_assoc]
  names handle p hName := by
    rcases h'.names handle p hName with hName | ⟨hLe, hLt⟩
    · exact (h.names handle p hName).imp_right fun hNew => ⟨hNew.1, Nat.lt_of_lt_of_le hNew.2 h'.size_le⟩
    · exact .inr ⟨Nat.le_trans h.size_le hLe, hLt⟩
  used := by
    rw [List.forall_mem_append]
    refine ⟨fun g hg p hp => ?_, fun g hg p hp => ?_⟩
    · exact (h.used g hg p hp).imp_left fun hNew => ⟨hNew.1, Nat.lt_of_lt_of_le hNew.2 h'.size_le⟩
    · rcases h'.used g hg p hp with ⟨hLe, hLt⟩ | ⟨handle, hName⟩
      · exact .inl ⟨Nat.le_trans h.size_le hLe, hLt⟩
      · -- a handle that has come in between names a pin that has done so too
        rcases h.names handle p hName with hName | hNew
        · exact .inr ⟨handle, hName⟩
        · exact .inl ⟨hNew.1, Nat.lt_of_lt_of_le hNew.2 h'.size_le⟩

/-- What is built later is on pins that are newer still. -/
theorem Builds.trans (h : Builds ps new b b') (h' : Builds ps new' b' b'') :
    Builds ps (new ++ new') b b'' where
  toExtends := h.toExtends.trans h'.toExtends
  newOn := by
    rw [List.forall_mem_append]
    refine ⟨fun g hg q hq => ?_, fun g hg q hq => ?_⟩
    · exact ⟨(h.newOn g hg q hq).1, Nat.lt_of_lt_of_le (h.newOn g hg q hq).2 h'.size_le⟩
    · exact ⟨Nat.le_trans h.size_le (h'.newOn g hg q hq).1, (h'.newOn g hg q hq).2⟩
  apart := by
    rw [List.pairwise_append]
    refine ⟨h.apart, h'.apart, fun g hg g' hg' q hq hq' => ?_⟩
    -- a pin of the one is older, and one of the other newer than the bench in between
    exact Nat.not_lt.mpr (h'.newOn g' hg' q hq').1 (h.newOn g hg q hq).2
  unnamed := by
    rw [List.forall_mem_append]
    refine ⟨fun g hg p hp handle hName => ?_, fun g hg p hp handle hName => ?_⟩
    · rcases h'.names handle p hName with hName | ⟨hLe, -⟩
      · exact h.unnamed g hg p hp handle hName
      · exact absurd (h.newOn g hg p hp).2 (Nat.not_lt.mpr hLe)
    · rcases h.names handle p (h'.unnamed g hg p hp handle hName) with hName | ⟨-, hLt⟩
      · exact hName
      · exact absurd hLt (Nat.not_lt.mpr (h'.newOn g hg p hp).1)

theorem Builds.of_extends (h : Extends ps [] b b') : Builds ps [] b b' :=
  ⟨h, by simp, .nil, by simp⟩

end Relations

-- ---------------------------------------------------------------------------
-- What moves do to them
-- ---------------------------------------------------------------------------

section Moves

variable {ps : List PinId} {e : Option Effect} {es : List Effect} {b b' : Bench}

/-- A part on pins that the board has grown by. -/
theorem extends_build {ss : List Signal} {gate : Gate} (hNew : gate.NewOn b.board (b.board.grow ss))
    (display : Bool) :
    Extends ps [gate] b ({ b with board := b.board.grow ss }.addPart gate display).2.2 where
  size_le := by
    show b.board.size ≤ (b.board.grow ss).size
    rw [Board.size_grow]
    exact Nat.le_add_right ..
  pin? p hp _ := Board.pin?_grow_of_lt hp
  gates := gates_addPart ..
  names _ _ hName := .inl hName
  used := List.forall_mem_singleton.mpr fun p hp => .inl (hNew p hp)

/-- A part on pins that have handles. -/
theorem extends_wire {gate : Gate} (h : ∀ p ∈ gate.pins, ∃ handle, b.Names handle p) (display : Bool) :
    Extends ps [gate] b (b.addPart gate display).2.2 where
  size_le := Nat.le_refl _
  pin? _ _ _ := rfl
  gates := gates_addPart ..
  names _ _ hName := .inl hName
  used := List.forall_mem_singleton.mpr fun p hp => .inr (h p hp)

/-- A pin that has a handle, and belongs to no part. -/
theorem extends_pin (b : Bench) (pin : Pin) (handle : String) :
    Extends ps [] b
      { b with board := b.board.place pin, network := b.network.bound handle (.pin b.board.size) } := by
  have hSize : (b.board.place pin).size = b.board.size + 1 := by simp [Board.size, Board.place]
  refine ⟨?_, fun p hp _ => ?_, (List.append_nil _).symm, fun other p hName => ?_, by simp⟩
  · rw [hSize]
    exact Nat.le_succ _
  · rw [Board.pin?_place, if_neg (Nat.ne_of_lt hp)]
  · rcases Network.eq_or_object?_of_bound hName with hNew | hOld
    · -- the handle itself stands for the new pin
      obtain rfl : b.board.size = p := Object.pin.inj hNew
      exact .inr ⟨Nat.le_refl _, by rw [hSize]; exact Nat.lt_succ_self _⟩
    · exact .inl hOld

/-- **What a move does to board and parts**, where `ps` are the pins that it may change. -/
theorem Move.extends (h : Move b e b') (hps : ∀ x ∈ e.toList, ∀ p ∈ x.touched, p ∈ ps) :
    Extends ps (e.toList.filterMap Effect.gate?) b b' := by
  cases h with
  | network hAbides => exact .of_eq rfl rfl hAbides.pins
  | attach i view => exact .of_eq rfl (gates_modify b i fun _ => rfl) fun _ _ hName => hName
  | start _ => exact .of_eq rfl (gates_modify b _ fun _ => rfl) fun _ _ hName => hName
  | pin _ handle => exact extends_pin b _ handle
  | write p v =>
    refine .of_board (Board.size_write ..) (fun q hq => ?_) rfl fun _ _ hName => hName
    -- the pin that is written is one of those that may change
    have hp : p ∈ ps := hps _ List.mem_cons_self p List.mem_cons_self
    exact Board.pin?_write_of_ne (fun hEq : p = q => hq (hEq ▸ hp)) v
  | step gate =>
    refine .of_board (Gate.size_stepped ..) (fun q hq => ?_) rfl fun _ _ hName => hName
    exact Gate.pin?_stepped_of_not_mem fun hMem => hq (hps _ List.mem_cons_self q hMem)
  | build _ hNew display => exact extends_build hNew display
  | wire hNames display => exact extends_wire hNames display
  | _ => exact .of_eq rfl rfl fun _ _ hName => hName

/-- What moves that wire nothing do to them. -/
theorem Move.builds (h : Move b e b') (hps : ∀ x ∈ e.toList, ∀ p ∈ x.touched, p ∈ ps)
    (hWires : ∀ x ∈ e.toList, x.wires = false) :
    Builds ps (e.toList.filterMap Effect.gate?) b b' := by
  have hExtends := h.extends hps
  cases h with
  | build _ hNew display =>
    exact ⟨hExtends, List.forall_mem_singleton.mpr hNew, List.pairwise_singleton _ _,
      fun _ _ _ _ _ hName => hName⟩
  -- excluded: that is a part on pins that are there
  | wire => cases hWires _ List.mem_cons_self
  | _ => exact .of_extends hExtends

/-- Moves add what each of them adds. -/
theorem Moves.extends (h : Moves es b b') (hps : ∀ x ∈ es, ∀ p ∈ x.touched, p ∈ ps) :
    Extends ps (es.filterMap Effect.gate?) b b' := by
  induction h with
  | refl => exact .of_eq rfl rfl fun _ _ hName => hName
  | next _ hMove ih =>
    rw [List.forall_mem_append] at hps
    rw [List.filterMap_append]
    exact (ih hps.1).trans (hMove.extends hps.2)

theorem Moves.builds (h : Moves es b b') (hps : ∀ x ∈ es, ∀ p ∈ x.touched, p ∈ ps)
    (hWires : ∀ x ∈ es, x.wires = false) : Builds ps (es.filterMap Effect.gate?) b b' := by
  induction h with
  | refl => exact .of_extends (.of_eq rfl rfl fun _ _ hName => hName)
  | next _ hMove ih =>
    rw [List.forall_mem_append] at hps hWires
    rw [List.filterMap_append]
    exact (ih hps.1 hWires.1).trans (hMove.builds hps.2 hWires.2)

end Moves

-- ---------------------------------------------------------------------------
-- Runs of commands
-- ---------------------------------------------------------------------------

/-- **What any command does to board and parts.** -/
theorem extends_run (b : Bench) (c : Command) : ∃ new, Extends (b.operated c) new b (b.run c).2 := by
  obtain ⟨es, hMoves, hAsked⟩ := exists_moves_run b c
  exact ⟨_, hMoves.extends hAsked.pins⟩

/-- **What a command does to them**, unless it puts a part on pins that are there. -/
theorem builds_run (b : Bench) {c : Command} (hc : c.wires = false) :
    ∃ new, Builds (b.operated c) new b (b.run c).2 := by
  obtain ⟨es, hMoves, hAsked⟩ := exists_moves_run b c
  exact ⟨_, hMoves.builds hAsked.pins (hAsked.wires hc)⟩

/-- All pins of parts, and all that have a handle, are on the board. -/
structure OnBoard (b : Bench) : Prop where
  gates : ∀ g ∈ b.gates, ∀ p ∈ g.pins, p < b.board.size
  names : ∀ handle p, b.Names handle p → p < b.board.size

/-- What is added is on the board too. -/
theorem OnBoard.of_extends {ps : List PinId} {new : List Gate} {b b' : Bench} (h : b.OnBoard)
    (hExtends : Extends ps new b b') : b'.OnBoard where
  gates := by
    rw [hExtends.gates, List.forall_mem_append]
    refine ⟨fun g hg p hp => ?_, fun g hg p hp => ?_⟩
    · exact Nat.lt_of_lt_of_le (h.gates g hg p hp) hExtends.size_le
    · -- a new gate is on new pins, or on pins that have handles and so were on the board
      rcases hExtends.used g hg p hp with hNew | ⟨handle, hName⟩
      · exact hNew.2
      · exact Nat.lt_of_lt_of_le (h.names handle p hName) hExtends.size_le
  names handle p hName := by
    rcases hExtends.names handle p hName with hName | hNew
    · exact Nat.lt_of_lt_of_le (h.names handle p hName) hExtends.size_le
    · exact hNew.2

/-- A command puts nothing anywhere but on the board. -/
theorem OnBoard.runAll {b : Bench} (h : b.OnBoard) (cs : List Command) : (b.runAll cs).OnBoard := by
  refine runAll_induction (fun b' c hb => ?_) h cs
  obtain ⟨new, hExtends⟩ := extends_run b' c
  exact hb.of_extends hExtends

theorem onBoard_empty (catalog : Catalog) : OnBoard { catalog } where
  gates := by simp [Bench.gates]
  names handle p hName := by simp [Names, Network.object?] at hName

/-- No part but the one with number `i` has a pin of that gate. -/
def ApartFrom (i : Nat) (g : Gate) (b : Bench) : Prop :=
  ∀ j g', j ≠ i → b.gates[j]? = some g' → g.pins.Disjoint g'.pins

/-- The part with number `i` has that gate, on pins that are on the board and that neither another part nor
a handle has. -/
structure Sheltered (i : Nat) (g : Gate) (b : Bench) : Prop where
  gate : b.gates[i]? = some g
  onBoard : ∀ p ∈ g.pins, p < b.board.size
  apart : ApartFrom i g b
  unnamed : ∀ p ∈ g.pins, ∀ handle, ¬ b.Names handle p

/-- A part keeps its number and its gate. -/
theorem getElem?_gates_of_extends {ps : List PinId} {new : List Gate} {b b' : Bench}
    (h : Extends ps new b b') {i : Nat} {g : Gate} (hGate : b.gates[i]? = some g) :
    b'.gates[i]? = some g := by
  obtain ⟨hLt, -⟩ := List.getElem?_eq_some_iff.mp hGate
  rw [h.gates, List.getElem?_append_left hLt, hGate]

/-- A gate after an extension was there before, or is one of those that were added. -/
theorem gate_of_extends {ps : List PinId} {new : List Gate} {b b' : Bench} (h : Extends ps new b b')
    {j : Nat} {g : Gate} (hGate : b'.gates[j]? = some g) :
    b.gates[j]? = some g ∨ b.gates.length ≤ j ∧ new[j - b.gates.length]? = some g := by
  rw [h.gates] at hGate
  rcases Nat.lt_or_ge j b.gates.length with hLt | hLe
  · rw [List.getElem?_append_left hLt] at hGate
    exact .inl hGate
  · rw [List.getElem?_append_right hLe] at hGate
    exact .inr ⟨hLe, hGate⟩

/-- What is added is on new pins, or on pins with handles, and so not on sheltered ones. -/
theorem Sheltered.of_extends {i : Nat} {g : Gate} {ps : List PinId} {new : List Gate} {b b' : Bench}
    (h : Sheltered i g b) (hExtends : Extends ps new b b') : Sheltered i g b' where
  gate := getElem?_gates_of_extends hExtends h.gate
  onBoard p hp := Nat.lt_of_lt_of_le (h.onBoard p hp) hExtends.size_le
  apart j g' hj hGate := by
    rcases gate_of_extends hExtends hGate with hOld | ⟨-, hNew⟩
    · exact h.apart j g' hj hOld
    · intro p hp hp'
      rcases hExtends.used g' (List.mem_of_getElem? hNew) p hp' with ⟨hLe, -⟩ | ⟨handle, hName⟩
      · exact Nat.not_lt.mpr hLe (h.onBoard p hp)
      · exact h.unnamed p hp handle hName
  unnamed p hp handle hName := by
    rcases hExtends.names handle p hName with hName | ⟨hLe, -⟩
    · exact h.unnamed p hp handle hName
    · exact Nat.not_lt.mpr hLe (h.onBoard p hp)

/-- **A sheltered part stays so**, whatever is made and wired around it. -/
theorem Sheltered.runAll {i : Nat} {g : Gate} {b : Bench} (h : Sheltered i g b) (cs : List Command) :
    Sheltered i g (b.runAll cs) := by
  refine runAll_induction (fun b' c hb => ?_) h cs
  obtain ⟨new, hExtends⟩ := extends_run b' c
  exact hb.of_extends hExtends

/-- Of gates that are all apart, any two are. -/
theorem disjoint_of_pairwise {gs : List Gate} (h : gs.Pairwise fun g g' => g.pins.Disjoint g'.pins)
    {i j : Nat} {g g' : Gate} (hi : gs[i]? = some g) (hj : gs[j]? = some g') (hij : i ≠ j) :
    g.pins.Disjoint g'.pins := by
  obtain ⟨hLt, hGet⟩ := List.getElem?_eq_some_iff.mp hi
  obtain ⟨hLt', hGet'⟩ := List.getElem?_eq_some_iff.mp hj
  have hPairwise := List.pairwise_iff_getElem.mp h
  rw [← hGet, ← hGet']
  rcases Nat.lt_or_gt_of_ne hij with hLess | hMore
  · exact hPairwise i j hLt hLt' hLess
  · exact fun _ hp hp' => hPairwise j i hLt' hLt hMore hp' hp

/-- A part that is made on new pins is sheltered. -/
theorem sheltered_of_builds {ps : List PinId} {new : List Gate} {b b' : Bench} (hBoard : b.OnBoard)
    (h : Builds ps new b b') {i : Nat} {g : Gate} (hi : b.gates.length ≤ i)
    (hGate : b'.gates[i]? = some g) : Sheltered i g b' := by
  have hNew : new[i - b.gates.length]? = some g := by
    rwa [h.gates, List.getElem?_append_right hi] at hGate
  have hMem : g ∈ new := List.mem_of_getElem? hNew
  refine ⟨hGate, fun p hp => (h.newOn g hMem p hp).2, fun j g' hj hOther => ?_,
    fun p hp handle hName => ?_⟩
  · rcases gate_of_extends h.toExtends hOther with hOld | ⟨hLe, hNew'⟩
    · -- what was there before is on lower pins
      intro p hp hp'
      have hLt := hBoard.gates g' (List.mem_of_getElem? hOld) p hp'
      exact Nat.not_lt.mpr (h.newOn g hMem p hp).1 hLt
    · refine disjoint_of_pairwise h.apart hNew hNew' fun hEq => hj ?_
      omega
  · have hLt := hBoard.names handle p (h.unnamed g hMem p hp handle hName)
    exact Nat.not_lt.mpr (h.newOn g hMem p hp).1 hLt

end Bench

end Breadboard
