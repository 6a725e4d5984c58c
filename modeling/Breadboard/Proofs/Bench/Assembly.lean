import Breadboard.Proofs.Bench.Parts

/-!
# Breadboard — which setups can be assembled

`Bench.assemble` goes through the entries of a setup and stops at the first that cannot be built. An entry
can be built (`PartSetup.Buildable`) if the catalog has its chip and all signals of the chip have widths
that a pin can have. All that can be wrong with it is listed in `PartSetup.violations`, in the order in
which it counts: that the catalog does not have its chip, or else the signals of an invalid width, inputs
before outputs. New pins have the widths of the signals that they are made for, so nothing else goes wrong.

* `Bench.reports_newGate` — a gate for an entry is made, or refused for the first violation;
* `Bench.assembles_of_ok`, `Bench.split_of_error` — what going through the entries comes to;
* `Bench.assemble_all_or_first_bad` — the whole statement.
-/

namespace Breadboard

-- ---------------------------------------------------------------------------
-- What can be wrong with an entry
-- ---------------------------------------------------------------------------

/-- An invalid width. -/
def Signal.widthViolation (s : Signal) : List Fault :=
  violation (1 ≤ s.width ∧ s.width ≤ 16) (.invalidWidth s.name s.width)

/-- Pins are made for all signals, or refused for the first invalid width. -/
theorem Board.reports_placeAll (b : Board) (ss : List Signal) :
    Reports (b.placeAll ss) (ss.flatMap Signal.widthViolation) := by
  induction ss generalizing b with
  | nil => exact rfl
  | cons s ss ih =>
    rw [placeAll, List.flatMap_cons]
    exact (Pin.reports_ofSignal s).bind fun pin _ => ih (b.place pin)

namespace PartSetup

/-- All that is wrong with an entry, in the order in which it counts. -/
def violations (it : PartSetup) (catalog : Catalog) : List Fault :=
  match catalog.chips[it.chip]? with
  | none => [.unknownChip it.chip]
  | some chip => chip.signals.flatMap Signal.widthViolation

/-- The catalog has the chip of an entry, with widths that pins can have. -/
def Buildable (it : PartSetup) (catalog : Catalog) : Prop :=
  ∃ chip, catalog.create it.chip = .ok chip ∧ ∀ s ∈ chip.signals, 1 ≤ s.width ∧ s.width ≤ 16

/-- Nothing is wrong with an entry exactly if it can be built. -/
theorem violations_eq_nil {it : PartSetup} {catalog : Catalog} :
    it.violations catalog = [] ↔ it.Buildable catalog := by
  simp only [Buildable, Catalog.create_eq_ok_iff, violations]
  cases catalog.chips[it.chip]? with
  | none => simp
  | some chip => simp [List.flatMap_eq_nil_iff, Signal.widthViolation, violation_eq_nil]

/-- What is wrong is a chip that the catalog lacks or a width, and never how the chip is put on its pins. -/
theorem eq_of_mem_violations {it : PartSetup} {catalog : Catalog} {f : Fault}
    (h : f ∈ it.violations catalog) :
    f = .unknownChip it.chip ∨ ∃ pin width, f = .invalidWidth pin width := by
  unfold violations at h
  split at h
  next => exact .inl (List.mem_singleton.mp h)
  next chip _ =>
    obtain ⟨s, -, hs⟩ := List.mem_flatMap.mp h
    unfold Signal.widthViolation violation at hs
    split at hs
    · cases hs
    · exact .inr ⟨_, _, List.mem_singleton.mp hs⟩

end PartSetup

-- ---------------------------------------------------------------------------
-- One entry
-- ---------------------------------------------------------------------------

/-- **The part stands for the entry**: it has the names, the display and the identity that the entry asks
for, has not been stepped yet, and is on pins that have the signals of the chip in order, all zero. -/
structure Assembled.StandsFor (a : Assembled) (b : Bench) (it : PartSetup) (id : Ident) : Prop where
  name : a.name = it.name.getD it.chip
  onBench : b.parts[a.index]? = some a.part
  id : a.part.id = id
  hasDisplay : a.part.hasDisplay = it.hasDisplay
  phase : a.part.phase = .constructed
  view : a.part.view = none
  gate : ∃ chip cell, b.catalog.create it.chip = .ok chip ∧ a.part.gate = .cell cell ∧
    cell.chip = chip ∧ a.part.name = chip.name ∧
    List.Forall₂ (fun s q => b.board.pin? q = some ⟨s, 0⟩) chip.inputs cell.inputs ∧
    List.Forall₂ (fun s q => b.board.pin? q = some ⟨s, 0⟩) chip.outputs cell.outputs

namespace Bench

/-- Catalog, parts and pins are still there, and there may be more of the latter two. -/
structure Retains (b b' : Bench) : Prop where
  catalog : b'.catalog = b.catalog
  part : ∀ (i : Nat) part, b.parts[i]? = some part → b'.parts[i]? = some part
  size_le : b.board.size ≤ b'.board.size
  pin? : ∀ q < b.board.size, b'.board.pin? q = b.board.pin? q

theorem Retains.trans {b b' b'' : Bench} (h : Retains b b') (h' : Retains b' b'') : Retains b b'' where
  catalog := h'.catalog.trans h.catalog
  part i part hPart := h'.part i part (h.part i part hPart)
  size_le := Nat.le_trans h.size_le h'.size_le
  pin? q hq := (h'.pin? q (Nat.lt_of_lt_of_le hq h.size_le)).trans (h.pin? q hq)

/-- What has been made stays as it is. -/
theorem standsFor_retained {a : Assembled} {b b' : Bench} {it : PartSetup}
    {id : Ident} (h : a.StandsFor b it id) (hRetains : Retains b b') : a.StandsFor b' it id := by
  -- a pin that is there stays as it is, so one that holds zero still does
  have hPin : ∀ (s : Signal) (q : PinId), b.board.pin? q = some ⟨s, 0⟩ →
      b'.board.pin? q = some ⟨s, 0⟩ := by
    intro s q hq
    have hLt : q < b.board.size := (Array.getElem?_eq_some_iff.mp hq).1
    rw [hRetains.pin? q hLt, hq]
  obtain ⟨chip, cell, hCreate, hGate, hChip, hName, hInputs, hOutputs⟩ := h.gate
  exact
    { h with
      onBench := hRetains.part _ _ h.onBench
      gate := ⟨chip, cell, hRetains.catalog ▸ hCreate, hGate, hChip, hName, hInputs.imp hPin,
        hOutputs.imp hPin⟩ }

/-- A gate for an entry is made, or refused for the first thing that is wrong with the entry. -/
theorem reports_newGate (b : Bench) (it : PartSetup) :
    Reports (b.newGate it.chip) (it.violations b.catalog) := by
  simp only [newGate, Catalog.create, PartSetup.violations]
  cases b.catalog.chips[it.chip]? with
  | none => exact rfl
  | some chip =>
    show Reports (Cell.fresh b.board chip >>= _) (chip.signals.flatMap Signal.widthViolation)
    rw [Cell.fresh_eq, bind_assoc, ← List.append_nil (chip.signals.flatMap _)]
    exact (b.board.reports_placeAll chip.signals).bind fun _ _ => rfl

-- ---------------------------------------------------------------------------
-- All entries
-- ---------------------------------------------------------------------------

/-- **The parts make up the entries**: each stands for its entry, with the identities in order, and is on
new pins that no other has. -/
structure Assembles (b : Bench) (its : List PartSetup) (built : List Assembled) (b' : Bench) : Prop
    extends Retains b b' where
  buildable : ∀ it ∈ its, it.Buildable b.catalog
  each : List.Forall₂ (fun entry a => a.StandsFor b' entry.1 entry.2) (its.zipIdx b.nextId) built
  nextId : b'.nextId = b.nextId + its.length
  newOn : ∀ a ∈ built, a.part.gate.NewOn b.board b'.board
  distinct : (built.flatMap fun a => a.part.gate.pins).Nodup

theorem assembles_nil {b b' : Bench} (h : Retains b b') (hId : b'.nextId = b.nextId) :
    Assembles b [] [] b' :=
  { h with buildable := by simp, each := .nil, nextId := hId, newOn := by simp, distinct := by simp }

/-- Entries are built one after the other. -/
theorem Assembles.trans {b b' b'' : Bench} {its its' : List PartSetup} {built built' : List Assembled}
    (h : Assembles b its built b') (h' : Assembles b' its' built' b'') :
    Assembles b (its ++ its') (built ++ built') b'' where
  toRetains := h.toRetains.trans h'.toRetains
  buildable := by
    have hLater := h'.buildable
    rw [h.catalog] at hLater
    exact List.forall_mem_append.mpr ⟨h.buildable, hLater⟩
  each := by
    rw [List.zipIdx_append, ← h.nextId]
    exact List.rel_append (h.each.imp fun _ _ hStands => standsFor_retained hStands h'.toRetains) h'.each
  nextId := by rw [h'.nextId, h.nextId, List.length_append, Nat.add_assoc]
  newOn := by
    rw [List.forall_mem_append]
    refine ⟨fun a ha q hq => ?_, fun a ha q hq => ?_⟩
    · exact ⟨(h.newOn a ha q hq).1, Nat.lt_of_lt_of_le (h.newOn a ha q hq).2 h'.size_le⟩
    · exact ⟨Nat.le_trans h.size_le (h'.newOn a ha q hq).1, (h'.newOn a ha q hq).2⟩
  distinct := by
    rw [List.flatMap_append, List.nodup_append']
    refine ⟨h.distinct, h'.distinct, fun q hq hq' => ?_⟩
    -- what comes later is on pins that are newer still
    obtain ⟨a, ha, hq⟩ := List.mem_flatMap.mp hq
    obtain ⟨a', ha', hq'⟩ := List.mem_flatMap.mp hq'
    exact Nat.not_lt.mpr (h'.newOn a' ha' q hq').1 (h.newOn a ha q hq).2

/-- What an entry is built into, once its gate is made. -/
def assembled (b : Bench) (gate : Gate) (it : PartSetup) : Assembled where
  name := it.name.getD it.chip
  index := (b.addPart gate it.hasDisplay).1
  part := (b.addPart gate it.hasDisplay).2.1

theorem assembleParts_of_error {b : Bench} {it : PartSetup} {f : Fault} (h : b.newGate it.chip = .error f)
    (rest : List PartSetup) : b.assembleParts (it :: rest) = (.error f, b) := by
  rw [assembleParts, h]

theorem assembleParts_of_ok {b b₁ b₂ : Bench} {it : PartSetup} {gate : Gate}
    (h : b.newGate it.chip = .ok (gate, b₁)) (hAdd : (b₁.addPart gate it.hasDisplay).2.2 = b₂)
    (rest : List PartSetup) :
    b.assembleParts (it :: rest) =
      ((b₂.assembleParts rest).1.map (b₁.assembled gate it :: ·), (b₂.assembleParts rest).2) := by
  rw [assembleParts, h, ← hAdd]
  rfl

/-- Step: a part is added on pins that the board has grown by. -/
theorem retains_addPart (b : Bench) (ss : List Signal) (gate : Gate) (display : Bool) :
    Retains b ({ b with board := b.board.grow ss }.addPart gate display).2.2 where
  catalog := rfl
  part i part hPart := by
    obtain ⟨hLt, -⟩ := Array.getElem?_eq_some_iff.mp hPart
    show (b.parts.push _)[i]? = some part
    rw [Array.getElem?_push, if_neg (Nat.ne_of_lt hLt), hPart]
  size_le := by
    show b.board.size ≤ (b.board.grow ss).size
    rw [Board.size_grow]
    exact Nat.le_add_right ..
  pin? q hq := Board.pin?_grow_of_lt hq

/-- Step: one entry is built. -/
theorem assembles_addPart {b b₁ b₂ : Bench} {it : PartSetup} {gate : Gate}
    (h : b.newGate it.chip = .ok (gate, b₁)) (hAdd : (b₁.addPart gate it.hasDisplay).2.2 = b₂) :
    Assembles b [it] [b₁.assembled gate it] b₂ := by
  obtain ⟨chip, hCreate, -, rfl, rfl⟩ := newGate_eq_onNew h
  subst hAdd
  obtain ⟨hInputs, hOutputs⟩ := Cell.forall₂_onNew b.board chip
  have hBuildable := PartSetup.violations_eq_nil.mp ((b.reports_newGate it).ok_iff.mp ⟨_, h⟩)
  refine
    { toRetains := retains_addPart b chip.signals _ it.hasDisplay
      buildable := List.forall_mem_singleton.mpr hBuildable
      each := .cons ⟨rfl, ?_, rfl, rfl, rfl, rfl, chip, _, hCreate, rfl, rfl, rfl, hInputs, hOutputs⟩ .nil
      nextId := rfl
      newOn := List.forall_mem_singleton.mpr (Cell.newOn_onNew b.board chip)
      distinct := ?_ }
  · exact Array.getElem?_push_size
  · rw [List.flatMap_singleton]
    show (Gate.cell (Cell.onNew b.board.size chip)).pins.Nodup
    rw [Cell.pins_onNew]
    exact List.nodup_range'

/-- Run: all entries are built. -/
theorem assembles_of_ok {b : Bench} {its : List PartSetup} {built : List Assembled}
    (h : (b.assembleParts its).1 = .ok built) : Assembles b its built (b.assembleParts its).2 := by
  induction its generalizing b built with
  | nil =>
    obtain rfl : [] = built := Except.ok.inj h
    exact assembles_nil ⟨rfl, fun _ _ hPart => hPart, Nat.le_refl _, fun _ _ => rfl⟩ rfl
  | cons it its ih =>
    cases hGate : b.newGate it.chip with
    | error f =>
      rw [assembleParts_of_error hGate] at h
      cases h
    | ok made =>
      -- the first entry is built, and the others on the bench that it leaves
      rw [assembleParts_of_ok hGate rfl] at h ⊢
      cases hRest : (assembleParts _ its).1 with
      | error f =>
        rw [hRest] at h
        cases h
      | ok others =>
        rw [hRest] at h
        obtain rfl := Except.ok.inj h
        exact (assembles_addPart hGate rfl).trans (ih hRest)

/-- Run: the entries up to the first bad one have been built, and each has taken an identity. -/
theorem split_of_error {b : Bench} {its : List PartSetup} {f : Fault}
    (h : (b.assembleParts its).1 = .error f) :
    ∃ good bad rest, its = good ++ bad :: rest ∧ (∀ it ∈ good, it.Buildable b.catalog) ∧
      (bad.violations b.catalog).head? = some f ∧
      (b.assembleParts its).2.nextId = b.nextId + good.length := by
  induction its generalizing b with
  | nil => cases h
  | cons it its ih =>
    cases hGate : b.newGate it.chip with
    | error f' =>
      rw [assembleParts_of_error hGate] at h ⊢
      obtain rfl := Except.error.inj h
      exact ⟨[], it, its, rfl, by simp, (b.reports_newGate it).error_iff.mp hGate, rfl⟩
    | ok made =>
      rw [assembleParts_of_ok hGate rfl] at h ⊢
      have hStep := assembles_addPart hGate rfl
      cases hRest : (assembleParts _ its).1 with
      | ok others =>
        rw [hRest] at h
        cases h
      | error f' =>
        rw [hRest] at h
        obtain rfl := Except.error.inj h
        obtain ⟨good, bad, rest, rfl, hGood, hBad, hId⟩ := ih hRest
        rw [hStep.catalog] at hGood hBad
        refine ⟨it :: good, bad, rest, rfl, ?_, hBad, ?_⟩
        · exact List.forall_mem_append.mpr ⟨hStep.buildable, hGood⟩
        · rw [hId, hStep.nextId, Nat.add_assoc, ← List.length_append, List.singleton_append]

/-- When all entries are built, a notice says so. -/
theorem assemble_of_ok {b : Bench} {s : Setup} {built : List Assembled}
    (h : (b.assembleParts s.parts).1 = .ok built) :
    b.assemble s =
      (.ok built, (b.assembleParts s.parts).2.note (.setupBuilt s.name built.length)) := by
  have hBoth : b.assembleParts s.parts = (.ok built, (b.assembleParts s.parts).2) := Prod.ext h rfl
  rw [assemble, hBoth]

theorem assemble_of_error {b : Bench} {s : Setup} {f : Fault}
    (h : (b.assembleParts s.parts).1 = .error f) : b.assemble s = b.assembleParts s.parts := by
  have hBoth : b.assembleParts s.parts = (.error f, (b.assembleParts s.parts).2) := Prod.ext h rfl
  rw [assemble, hBoth]

/--
**A setup is assembled as a whole or refused for its first bad entry.** On any bench, with any catalog:

* it is assembled if and only if every entry can be built;
* then there is one part for each entry, in order, that stands for it, with consecutive identities and on
  new pins of its own (`Assembles`);
* a setup that is refused has a first entry that cannot be built. The fault is the first thing that is
  wrong with that one, and each entry before it has taken one identity;
* it is never refused for a number of pins or for a mismatch of widths.
-/
theorem assemble_all_or_first_bad (b : Bench) (s : Setup) :
    ((∃ built, (b.assemble s).1 = .ok built) ↔ ∀ it ∈ s.parts, it.Buildable b.catalog) ∧
    (∀ built, (b.assemble s).1 = .ok built → Assembles b s.parts built (b.assemble s).2) ∧
    (∀ f, (b.assemble s).1 = .error f →
      (∃ good bad rest, s.parts = good ++ bad :: rest ∧ (∀ it ∈ good, it.Buildable b.catalog) ∧
        ¬ bad.Buildable b.catalog ∧ (bad.violations b.catalog).head? = some f ∧
        (b.assemble s).2.nextId = b.nextId + good.length) ∧
      (∀ chip side expected actual, f ≠ .pinCount chip side expected actual) ∧
      ∀ pin expected actual, f ≠ .widthMismatch pin expected actual) := by
  cases hParts : (b.assembleParts s.parts).1 with
  | ok built =>
    have hAssembles := assembles_of_ok hParts
    have hFst : (b.assemble s).1 = .ok built := by rw [assemble_of_ok hParts]
    refine ⟨⟨fun _ => hAssembles.buildable, fun _ => ⟨built, hFst⟩⟩, fun built' h => ?_, fun f h => ?_⟩
    · rw [assemble_of_ok hParts] at h ⊢
      obtain rfl := Except.ok.inj h
      -- the notice is nothing to the parts
      exact { hAssembles with each := hAssembles.each.imp fun _ _ hStands => { hStands with } }
    · rw [hFst] at h
      cases h
  | error f =>
    rw [assemble_of_error hParts]
    obtain ⟨good, bad, rest, hSplit, hGood, hBad, hId⟩ := split_of_error hParts
    -- the entry at fault has something wrong with it, so it cannot be built
    have hNot : ¬ bad.Buildable b.catalog := by
      rw [← PartSetup.violations_eq_nil]
      intro hNil
      rw [hNil] at hBad
      cases hBad
    refine ⟨⟨?_, fun hAll => ?_⟩, ?_, fun f' h => ?_⟩
    · rintro ⟨built, h⟩
      rw [hParts] at h
      cases h
    · refine absurd (hAll bad ?_) hNot
      rw [hSplit]
      exact List.mem_append_right _ (List.mem_cons_self ..)
    · intro built h
      rw [hParts] at h
      cases h
    · obtain rfl : f = f' := Except.error.inj (hParts.symm.trans h)
      refine ⟨⟨good, bad, rest, hSplit, hGood, hNot, hBad, hId⟩, ?_⟩
      rcases PartSetup.eq_of_mem_violations (List.mem_of_head? hBad) with rfl | ⟨pin, width, rfl⟩ <;> simp

/-- A catalog with an inverter under a name that is not its own, and a chip with signals of two widths that
no pin can have. -/
def workshop : Catalog :=
  (Catalog.empty.register "inverter" .not).register "odd"
    (.programmed "Odd" [⟨"in", 16⟩] [⟨"none", 0⟩, ⟨"many", 17⟩] [])

/-- Two inverters, of which only the first has a name of its own. -/
def inverterPair : Setup :=
  { parts := [{ chip := "inverter", name := some "first", hasDisplay := true }, { chip := "inverter" }] }

/-- The same, with a chip of invalid widths after them and a chip that is not there at the end. -/
def flawed : Setup :=
  { parts := inverterPair.parts ++ [{ chip := "odd" }, { chip := "Odd" }] }

/-- The inverters are built with identities 1 and 2, each on two pins of its own. With the other two chips
the setup is refused for the first output of the odd one, and two identities are gone. -/
theorem assemble_all_or_first_bad_workshop :
    (∃ built, (assemble { catalog := workshop } inverterPair).1 = .ok built ∧
      built.map (fun a => (a.name, a.part.name, a.part.id, a.part.gate.pins)) =
        [("first", "Not", 1, [0, 1]), ("inverter", "Not", 2, [2, 3])] ∧
      Assembles { catalog := workshop } inverterPair.parts built
        (assemble { catalog := workshop } inverterPair).2) ∧
    (assemble { catalog := workshop } flawed).1 = .error (.invalidWidth "none" 0) ∧
    ∃ good bad rest, flawed.parts = good ++ bad :: rest ∧
      (∀ it ∈ good, it.Buildable workshop) ∧ ¬ bad.Buildable workshop ∧
      (bad.violations workshop).head? = some (.invalidWidth "none" 0) ∧
      (assemble { catalog := workshop } flawed).2.nextId = 1 + good.length := by
  obtain ⟨-, hOk, -⟩ := assemble_all_or_first_bad { catalog := workshop } inverterPair
  obtain ⟨-, -, hError⟩ := assemble_all_or_first_bad { catalog := workshop } flawed
  have hRefused : (assemble { catalog := workshop } flawed).1 = .error (.invalidWidth "none" 0) := by rfl
  exact ⟨⟨_, rfl, by decide +kernel, hOk _ rfl⟩, hRefused, (hError _ hRefused).1⟩

end Bench

end Breadboard
