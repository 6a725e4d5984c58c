import Breadboard.Proofs.Circuit.Formula
import Breadboard.Proofs.Circuit.Range

/-!
# Breadboard — nand is enough

Joins on numbered nets (`Join`) are turned into a plan of nands on nets of one bit, named by their numbers
(`Plan.ofJoins`). Such a plan can be built, on whatever board (`build_ofJoins`). The lowest bits on the nets
are all that counts: a step of a nand changes them as the join does (`bits_step`), and so do nands one after
the other (`bits_steps`). With the joins of formulas this gives a circuit for every function of bits
(`nand_universal`).
-/

namespace Breadboard

namespace Board

-- ---------------------------------------------------------------------------
-- Bits on a board
-- ---------------------------------------------------------------------------

/-- The lowest bit of the word on a pin. -/
def bit (b : Board) (p : PinId) : Bool := lowBit (b.read p).toInt32

/-- A pin of one bit holds the lowest bit of what it is given. -/
theorem bit_write_self {b : Board} {p : PinId} (hp : p < b.size) (hw : b.widthOf p = 1) (v : Value) :
    (b.write p v).bit p = lowBit v := by
  rw [bit, read_write_self hp, hw, fit_one, lowBit_bitWord]

theorem bit_write_of_ne {b : Board} {p q : PinId} (h : p ≠ q) (v : Value) :
    (b.write p v).bit q = b.bit q := by
  rw [bit, read_write_of_ne h, bit]

/-- A pin of one bit holds its lowest bit and nothing else. -/
theorem read_eq_bitWord {b : Board} {p : PinId} (h : b.InRange p) (hw : b.widthOf p = 1) :
    b.read p = bitWord (b.bit p) := by
  rw [← h, hw, fit_one, bit]

/-- Gives some pins one value each, in order. -/
def feed (b : Board) (ps : List PinId) (vs : List Value) : Board :=
  (ps.zip vs).foldl (fun b x => b.write x.1 x.2) b

/-- Giving values to pins is one way to go ahead. -/
theorem reaches_feed (b : Board) (ps : List PinId) (vs : List Value) : b.Reaches (b.feed ps vs) := by
  refine ⟨(ps.zip vs).map fun x => .write x.1 x.2, ?_⟩
  rw [feed, List.foldl_map]
  rfl

/-- Pins that are given nothing keep their bits. -/
theorem bit_feed_of_not_mem {b : Board} {ps : List PinId} {vs : List Value} {q : PinId} (hq : q ∉ ps) :
    (b.feed ps vs).bit q = b.bit q := by
  induction ps generalizing b vs with
  | nil => rfl
  | cons p ps ih =>
    cases vs with
    | nil => rfl
    | cons v vs =>
      rw [List.mem_cons, not_or] at hq
      show ((b.write p v).feed ps vs).bit q = b.bit q
      rw [ih hq.2, bit_write_of_ne (Ne.symm hq.1)]

/-- Of all values that pins are given, each pin has the lowest bit of its own. -/
theorem bit_feed {b : Board} {ps : List PinId} {vs : List Value} (hNodup : ps.Nodup)
    (hBits : ∀ p ∈ ps, p < b.size ∧ b.widthOf p = 1) {k : Nat} {p : PinId} {v : Value}
    (hp : ps[k]? = some p) (hv : vs[k]? = some v) : (b.feed ps vs).bit p = lowBit v := by
  induction ps generalizing b vs k with
  | nil => simp at hp
  | cons q ps ih =>
    cases vs with
    | nil => simp at hv
    | cons u vs =>
      rw [List.nodup_cons] at hNodup
      rw [List.forall_mem_cons] at hBits
      have hRest : ∀ r ∈ ps, r < (b.write q u).size ∧ (b.write q u).widthOf r = 1 := by
        simpa only [size_write, widthOf_write] using hBits.2
      show ((b.write q u).feed ps vs).bit p = lowBit v
      cases k with
      | zero =>
        obtain rfl : q = p := by simpa using hp
        obtain rfl : u = v := by simpa using hv
        rw [bit_feed_of_not_mem hNodup.1, bit_write_self hBits.1.1 hBits.1.2]
      | succ k => exact ih hNodup.2 hRest (by simpa using hp) (by simpa using hv)

end Board

-- ---------------------------------------------------------------------------
-- Joins as cells
-- ---------------------------------------------------------------------------

namespace Join

/-- The nand of a join, when the nets have the numbers from `base` on. -/
def cell (base : PinId) (g : Join) : Cell :=
  ⟨.nand, [base + g.left, base + g.right], [base + g.out]⟩

/-- What a nand writes. -/
theorem step_cell (b : Board) (base : PinId) (g : Join) :
    (g.cell base).step b = .ok (b.write (base + g.out)
      (bitWord !(b.bit (base + g.left) && b.bit (base + g.right))).toInt32) := by
  have hWord : ∀ x y : Bool, ~~~(bitWord x &&& bitWord y) &&& 1 = bitWord !(x && y) := by decide
  rw [Board.bit, Board.bit, ← hWord, ← and_one, ← and_one]
  rfl

/-- **A nand changes the bits as its join does.** -/
theorem bits_step {b : Board} {base : PinId} {g : Join} (hSize : base + g.out < b.size)
    (hWidth : b.widthOf (base + g.out) = 1) {b' : Board} (hStep : (g.cell base).step b = .ok b') :
    (fun k => b'.bit (base + k)) = g.apply fun k => b.bit (base + k) := by
  rw [step_cell, Except.ok.injEq] at hStep
  subst hStep
  funext k
  -- the net that is driven carries the nand, and the others what they carried
  by_cases hk : k = g.out
  · rw [hk, apply, Function.update_self, Board.bit_write_self hSize hWidth, lowBit_bitWord]
  · rw [apply, Function.update_of_ne hk, Board.bit_write_of_ne]
    exact fun hEq => hk (Nat.add_left_cancel hEq).symm

/-- **So do nands one after the other.** -/
theorem bits_steps {b : Board} {base : PinId} {gs : List Join}
    (h : ∀ g ∈ gs, base + g.out < b.size ∧ b.widthOf (base + g.out) = 1) :
    ∃ ws, Cell.steps (gs.map (cell base)) b = .ok (b.writeAll ws) ∧
      (fun k => (b.writeAll ws).bit (base + k)) = applyAll gs fun k => b.bit (base + k) := by
  induction gs generalizing b with
  | nil => exact ⟨[], rfl, rfl⟩
  | cons g gs ih =>
    rw [List.forall_mem_cons] at h
    have hStep := step_cell b base g
    obtain ⟨ws, hws⟩ := Cell.step_eq_writeAll hStep
    rw [hws] at hStep
    have hBits := bits_step h.1.1 h.1.2 hStep
    obtain ⟨ws', hSteps, hRest⟩ := ih (b := b.writeAll _) (by
      simpa only [Board.size_writeAll, Board.widthOf_writeAll] using h.2)
    -- the nands behind the first one start from what it has written
    rw [← Board.writeAll_append] at hSteps hRest
    refine ⟨_, Cell.steps_cons_eq_ok_iff.mpr ⟨_, hStep, hSteps⟩, ?_⟩
    rw [hRest, hBits, applyAll_cons]

end Join

-- ---------------------------------------------------------------------------
-- Plans of nands
-- ---------------------------------------------------------------------------

/-- The name of a net, by its number. -/
def netName (k : Nat) : String := k.repr

/-- Different nets have different names. -/
theorem netName_injective : Function.Injective netName := by
  intro j k h
  have hDigits : Nat.toDigits 10 j = Nat.toDigits 10 k := by
    rw [← Nat.toList_repr, ← Nat.toList_repr]
    exact congrArg String.toList h
  calc
    j = Nat.ofDigitChars 10 (Nat.toDigits 10 j) 0 := Nat.ofDigitChars_ten_toDigits.symm
    _ = Nat.ofDigitChars 10 (Nat.toDigits 10 k) 0 := by rw [hDigits]
    _ = k := Nat.ofDigitChars_ten_toDigits

/-- Nets of one bit. -/
def bitNets (ks : List Nat) : List Signal := ks.map fun k => .bit (netName k)

/-- A nand on three nets. -/
def Join.placement (g : Join) : Placement :=
  ⟨"Nand", [("a", netName g.left), ("b", netName g.right), ("out", netName g.out)]⟩

/-- The plan of some joins: the first `n` nets are inputs, the next `m` outputs, and `k` more lie inside. -/
def Plan.ofJoins (n m k : Nat) (gs : List Join) : Plan where
  name := "Nands"
  inputs := bitNets (List.range' 0 n)
  outputs := bitNets (List.range' n m)
  internals := bitNets (List.range' (n + m) k)
  parts := gs.map Join.placement

/-- The circuit of that plan, when the nets have the numbers from `base` on. -/
def Circuit.ofJoins (base : PinId) (n m k : Nat) (gs : List Join) : Circuit where
  name := "Nands"
  inputs := List.range' base n
  outputs := List.range' (base + n) m
  internals := List.range' (base + n + m) k
  cells := gs.map (Join.cell base)

/-- All nets of the plan, in the order of their numbers. -/
theorem Plan.nets_ofJoins (n m k : Nat) (gs : List Join) :
    (ofJoins n m k gs).nets = bitNets (List.range (n + m + k)) := by
  have hAll : List.range (n + m + k) = List.range' 0 n ++ List.range' n m ++ List.range' (n + m) k := by
    have hInner := List.range'_append_1 (s := 0) (m := n) (n := m)
    have hOuter := List.range'_append_1 (s := 0) (m := n + m) (n := k)
    rw [Nat.zero_add] at hInner hOuter
    rw [hInner, hOuter, List.range_eq_range']
  rw [hAll, bitNets, List.map_append, List.map_append]
  rfl

/-- A net is found under its name. -/
theorem netPin?_bitNets {base : PinId} {j k : Nat} (h : j < k) :
    netPin? base (bitNets (List.range k)) (netName j) = some (base + j) := by
  have hFind : (bitNets (List.range k)).findIdx? (fun s => s.name == netName j) = some j := by
    rw [List.findIdx?_eq_some_iff_getElem]
    refine ⟨by simpa [bitNets] using h, by simp [bitNets, Signal.bit], fun i hi => ?_⟩
    have hName : netName i ≠ netName j := fun hEq => Nat.ne_of_lt hi (netName_injective hEq)
    simpa [bitNets, Signal.bit] using hName
  rw [netPin?, hFind, Option.map_some]

/-- The new nets have one bit each. -/
theorem Board.widthOf_grow_bitNets (b : Board) {j k : Nat} (h : j < k) :
    (b.grow (bitNets (List.range k))).widthOf (b.size + j) = 1 := by
  rw [widthOf, pin?_grow_of_le (Nat.le_add_right ..), Nat.add_sub_cancel_left]
  simp [bitNets, h, Signal.bit]

/-- The part of a join is the nand of the join. -/
theorem Join.cell_placement (b : Board) (circuit : String) {g : Join} {k : Nat} (h : g.Below k) :
    g.placement.cell .standard (b.grow (bitNets (List.range k))) circuit
      (netPin? b.size (bitNets (List.range k))) = .ok (g.cell b.size) := by
  obtain ⟨hLeft, hRight, hOut⟩ := h
  have hCreate : Catalog.standard.create "Nand" = .ok .nand := rfl
  have hCheck : Placement.check "Nand" ((Chip.nand.inputs ++ Chip.nand.outputs).map Signal.name) []
      g.placement.connections = .ok () := rfl
  -- each signal of the nand is connected to a net of one bit
  have hPin : ∀ {pin : String} {j : Nat}, g.placement.connections.lookup pin = some (netName j) → j < k →
      g.placement.resolve circuit (netPin? b.size (bitNets (List.range k))) pin = .ok (b.size + j) :=
    fun hLookup hj => Placement.resolve_eq_ok_iff.mpr ⟨_, hLookup, netPin?_bitNets hj⟩
  have hWidth : ∀ {j : Nat}, j < k → 1 = (b.grow (bitNets (List.range k))).widthOf (b.size + j) :=
    fun hj => (b.widthOf_grow_bitNets hj).symm
  -- the stages in order: chip, connections, inputs, outputs, widths
  refine bind_eq_ok_iff.mpr ⟨_, hCreate, bind_eq_ok_iff.mpr ⟨_, hCheck, ?_⟩⟩
  refine bind_eq_ok_iff.mpr ⟨[b.size + g.left, b.size + g.right], mapM_eq_ok_iff.mpr ?_, ?_⟩
  · exact .cons (hPin rfl hLeft) (.cons (hPin rfl hRight) .nil)
  refine bind_eq_ok_iff.mpr ⟨[b.size + g.out], mapM_eq_ok_iff.mpr (.cons (hPin rfl hOut) .nil), ?_⟩
  refine bind_eq_ok_iff.mpr ⟨(), Cell.checkSide_eq_ok ?_ _ _, bind_eq_ok_iff.mpr
    ⟨(), Cell.checkSide_eq_ok ?_ _ _, rfl⟩⟩
  · exact .cons (hWidth hLeft) (.cons (hWidth hRight) .nil)
  · exact .cons (hWidth hOut) .nil

/-- **Every plan of joins on its nets can be built.** -/
theorem Plan.build_ofJoins (b : Board) {n m k : Nat} {gs : List Join} (h : ∀ g ∈ gs, g.Below (n + m + k)) :
    (ofJoins n m k gs).build .standard b =
      .ok (b.grow (bitNets (List.range (n + m + k))), .ofJoins b.size n m k gs) := by
  rw [build_eq_ok_iff, Board.placeNets_eq_ok_iff, nets_ofJoins]
  refine ⟨⟨?_, ?_, rfl⟩, gs.map (Join.cell b.size), ?_, ?_⟩
  · exact List.forall_mem_map.mpr fun _ _ => ⟨rfl, List.not_mem_nil⟩
  · -- names do not repeat, since numbers do not
    rw [bitNets, List.map_map]
    exact List.nodup_range.map netName_injective
  · simp [circuit, Circuit.ofJoins, ofJoins, bitNets]
  · show List.Forall₂ _ (gs.map Join.placement) (gs.map (Join.cell b.size))
    rw [List.forall₂_map_left_iff, List.forall₂_map_right_iff, List.forall₂_same]
    exact fun g hg => Join.cell_placement b _ (h g hg)

-- ---------------------------------------------------------------------------
-- Circuits of nands
-- ---------------------------------------------------------------------------

section Nands

variable {b s : Board} {n m k : Nat} {gs : List Join}

/-- A net of one bit stays one. -/
theorem bitNet_of_reaches (hReach : (b.grow (bitNets (List.range k))).Reaches s) {j : Nat} (hj : j < k) :
    b.size + j < s.size ∧ s.widthOf (b.size + j) = 1 ∧ s.InRange (b.size + j) := by
  have hLt : b.size + j < (b.grow (bitNets (List.range k))).size := by
    rw [Board.size_grow]
    simpa [bitNets] using hj
  have hSignal := hReach.signal?_of_lt hLt
  refine ⟨?_, ?_, (Board.inRange_grow_of_le (Nat.le_add_right ..)).reaches hReach⟩
  · rwa [← Board.signal?_isSome_iff, hSignal, Board.signal?_isSome_iff]
  · rw [Board.widthOf_congr hSignal, b.widthOf_grow_bitNets hj]

/-- **A step of a circuit of nands** goes through, and leaves on every net what the joins leave. -/
theorem stepped_ofJoins (h : ∀ g ∈ gs, g.Below (n + m + k))
    (hReach : (b.grow (bitNets (List.range (n + m + k)))).Reaches s) :
    ((Circuit.ofJoins b.size n m k gs).stepped s).outcome = .ok () ∧
      ∀ j < n + m + k, ((Circuit.ofJoins b.size n m k gs).stepped s).board.read (b.size + j) =
        bitWord (Join.applyAll gs (fun j => s.bit (b.size + j)) j) := by
  have hDriven : ∀ g ∈ gs, b.size + g.out < s.size ∧ s.widthOf (b.size + g.out) = 1 := by
    intro g hg
    obtain ⟨hLt, hWidth, -⟩ := bitNet_of_reaches hReach (h g hg).2.2
    exact ⟨hLt, hWidth⟩
  obtain ⟨ws, hSteps, hBits⟩ := Join.bits_steps hDriven
  obtain ⟨hOutcome, hBoard⟩ :=
    Circuit.stepped_eq_ok_iff (c := Circuit.ofJoins b.size n m k gs).mpr hSteps
  refine ⟨hOutcome, fun j hj => ?_⟩
  obtain ⟨-, hWidth, hRange⟩ := bitNet_of_reaches hReach hj
  rw [← Board.widthOf_writeAll s ws] at hWidth
  rw [hBoard, Board.read_eq_bitWord (hRange.writeAll ws) hWidth, congrFun hBits j]

/-- Values that are written to the inputs leave their lowest bits there. -/
theorem carries_feed (hReach : (b.grow (bitNets (List.range (n + m + k)))).Reaches s) (v : Fin n → Value) :
    Formula.Carries (fun i => lowBit (v i))
      fun j => (s.feed (List.range' b.size n) (List.ofFn v)).bit (b.size + j) := by
  intro i
  have hBits : ∀ q ∈ List.range' b.size n, q < s.size ∧ s.widthOf q = 1 := by
    intro q hq
    rw [List.mem_range'_1] at hq
    obtain ⟨j, rfl⟩ := Nat.exists_eq_add_of_le hq.1
    have hj : j < n + m + k := by omega
    obtain ⟨hLt, hWidth, -⟩ := bitNet_of_reaches hReach hj
    exact ⟨hLt, hWidth⟩
  exact Board.bit_feed List.nodup_range' hBits (k := i) (by simp) (by simp)

end Nands

section Functions

variable {n m : Nat} (z : Fin n) (f : (Fin n → Bool) → Fin m → Bool)

/-- Formulas for the opposites of the bits that a function gives. -/
def Formula.opposites : List (Formula n) := List.ofFn fun j => ofFunction z fun x => !f x j

theorem Formula.length_opposites : (opposites z f).length = m := List.length_ofFn

/-- The joins that compute a function, outputs behind inputs and all other nets behind the outputs. -/
def Join.computing : List Join := Formula.outputJoins (n + m) n (Formula.opposites z f)

/-- A plan of nands that computes a function. -/
def Plan.computing : Plan := ofJoins n m (Formula.sizeAll (Formula.opposites z f)) (Join.computing z f)

/-- The joins of a function are on the nets that its plan has. -/
theorem Join.below_computing :
    ∀ g ∈ computing z f, g.Below (n + m + Formula.sizeAll (Formula.opposites z f)) :=
  Formula.below_of_mem_outputJoins (Nat.le_add_right n m) (by rw [Formula.length_opposites])

/-- An output carries the opposite of a formula for the opposite of what the function gives. -/
theorem Join.applyAll_computing {x : Fin n → Bool} {env : Nat → Bool} (hx : Formula.Carries x env)
    (j : Fin m) : applyAll (computing z f) env (n + j) = f x j := by
  have hOut : n + (Formula.opposites z f).length ≤ n + m := by rw [Formula.length_opposites]
  have hFormula : (Formula.opposites z f)[j.val]? = some (.ofFunction z fun x => !f x j) := by
    simp [Formula.opposites]
  rw [computing, (Formula.applyAll_outputJoins (Nat.le_refl n) hOut hx).1 j _ hFormula,
    Formula.value_ofFunction, Bool.not_not]

end Functions

/--
**Nand is universal.** For every function `f` from at least one bit to any number of bits there is a plan
with an input for each bit that `f` takes, an output for each bit that it gives, nets of one bit, and nands
only. It can be built on every board; and however the pins have been used since, when any values are written
to the inputs, a step goes through and leaves on the outputs what `f` gives for the lowest bits of the values.
-/
theorem nand_universal {n m : Nat} (hn : 0 < n) (f : (Fin n → Bool) → Fin m → Bool) :
    ∃ p : Plan, p.inputs.length = n ∧ p.outputs.length = m ∧ (∀ net ∈ p.nets, net.width = 1) ∧
      (∀ it ∈ p.parts, it.chip = "Nand") ∧
      ∀ b : Board, ∃ b₁ c, p.build .standard b = .ok (b₁, c) ∧
        ∀ (s : Board) (v : Fin n → Value), b₁.Reaches s →
          (c.stepped (s.feed c.inputs (List.ofFn v))).outcome = .ok () ∧
          (c.stepped (s.feed c.inputs (List.ofFn v))).board.readAll c.outputs =
            List.ofFn fun j => bitWord (f (fun i => lowBit (v i)) j) := by
  have hBelow := Join.below_computing ⟨0, hn⟩ f
  refine ⟨.computing ⟨0, hn⟩ f, ?_, ?_, ?_, ?_,
    fun b => ⟨_, _, Plan.build_ofJoins b hBelow, fun s v hReach => ?_⟩⟩
  · simp [Plan.computing, Plan.ofJoins, bitNets]
  · simp [Plan.computing, Plan.ofJoins, bitNets]
  · rw [Plan.computing, Plan.nets_ofJoins]
    exact List.forall_mem_map.mpr fun _ _ => rfl
  · exact List.forall_mem_map.mpr fun _ _ => rfl
  · -- the inputs carry the lowest bits of the values, and the outputs what the joins make of them
    have hFed := hReach.trans (Board.reaches_feed s (List.range' b.size n) (List.ofFn v))
    obtain ⟨hOutcome, hRead⟩ := stepped_ofJoins hBelow hFed
    refine ⟨hOutcome, List.ext_getElem (by simp [Circuit.ofJoins, Board.readAll]) fun j _ hj => ?_⟩
    rw [List.length_ofFn] at hj
    have hValue := Join.applyAll_computing ⟨0, hn⟩ f (carries_feed hReach v) ⟨j, hj⟩
    have hWord := hRead (n + j) (by omega)
    rw [hValue, ← Nat.add_assoc] at hWord
    simpa [Circuit.ofJoins, Board.readAll] using hWord

/-- Carry and sum of two bits. -/
def halfAdder (x : Fin 2 → Bool) (j : Fin 2) : Bool :=
  if j = 0 then x 0 && x 1 else x 0 != x 1

/-- A half adder of nands adds the lowest bits of 3 and of -1, and those of 3 and of 4 after that, when all
nets still hold what the first step has left. -/
theorem nand_universal_halfAdder :
    ∃ (p : Plan) (b₁ : Board) (c : Circuit), (∀ it ∈ p.parts, it.chip = "Nand") ∧
      p.build .standard .empty = .ok (b₁, c) ∧ c.inputs.length = 2 ∧
      (c.stepped (b₁.feed c.inputs [3, -1])).outcome = .ok () ∧
      (c.stepped (b₁.feed c.inputs [3, -1])).board.readAll c.outputs = [1, 0] ∧
      (c.stepped ((c.stepped (b₁.feed c.inputs [3, -1])).board.feed c.inputs [3, 4])).board.readAll
        c.outputs = [0, 1] := by
  obtain ⟨p, hInputs, -, -, hParts, hBuilt⟩ := nand_universal (by decide) halfAdder
  obtain ⟨b₁, c, hBuild, hStep⟩ := hBuilt .empty
  have hLength : c.inputs.length = 2 := by
    obtain ⟨-, cells, rfl, -⟩ := Plan.build_eq_ok_iff.mp hBuild
    rw [Plan.circuit, List.length_range', hInputs]
  have hFirst := Board.reaches_feed b₁ c.inputs [3, -1]
  obtain ⟨hOutcome, hSum⟩ := hStep b₁ [3, -1].get (.refl b₁)
  obtain ⟨-, hNext⟩ := hStep _ [3, 4].get (hFirst.change (.step (.circuit c)))
  exact ⟨p, b₁, c, hParts, hBuild, hLength, hOutcome, hSum, hNext⟩

end Breadboard
