import Breadboard.Chip.Program
import Breadboard.Proofs.Circuit.Wiring
import Mathlib.Data.List.Infix
import Mathlib.Data.List.Nodup

/-!
# Breadboard — which plans can be built

`Plan.build` goes through a plan and stops at the first thing that is wrong. Here everything that can
be wrong with a plan is listed, in the order in which it counts (`Plan.violations`):

* for each net, inputs before outputs before internals: an invalid width, then a name that an earlier
  net has;
* for each part: a chip that the catalog does not have; for each connection, a signal that an earlier
  connection names, then one that the chip does not have; for each signal of the chip, inputs before
  outputs, no connection at all or a net that is not declared; and last, for each signal again, a
  net of another width.

Building a plan reports the first of these (`Plan.reports_build`). That there is none is the same as
the plan being **well-formed** (`Plan.WellFormed`), which is said without any order, and a plan that
is built is wired as it says (`Circuit.Realises`). `Plan.build_exact` puts the three together.
-/

namespace Breadboard

/-! ## What comes before a member of a list -/

section Earlier

variable {α β : Type}

/-- Every member of a list, with the members before it. -/
def withEarlier (l : List α) : List (List α × α) := l.inits.zip l

/-- Behind the first member, everyone has it among the members before. -/
theorem withEarlier_cons (a : α) (l : List α) :
    withEarlier (a :: l) = ([], a) :: (withEarlier l).map (Prod.map (a :: ·) id) := by
  unfold withEarlier
  rw [List.inits_cons, List.zip_cons_cons, List.zip_map_left]

theorem flatMap_withEarlier_cons (f : List α × α → List β) (a : α) (l : List α) :
    (withEarlier (a :: l)).flatMap f =
      f ([], a) ++ (withEarlier l).flatMap fun x => f (a :: x.1, x.2) := by
  rw [withEarlier_cons, List.flatMap_cons, List.flatMap_map]
  rfl

/-- What does not ask for the members before is a property of the members. -/
theorem forall_withEarlier_snd {P : α → Prop} {l : List α} :
    (∀ x ∈ withEarlier l, P x.2) ↔ ∀ a ∈ l, P a := by
  induction l with
  | nil => simp [withEarlier]
  | cons a l ih =>
    rw [withEarlier_cons, List.forall_mem_cons, List.forall_mem_cons, List.forall_mem_map, ← ih]
    rfl

/-- No member has the key of an earlier one exactly if no key occurs twice. -/
theorem forall_withEarlier_iff_nodup {key : α → β} {l : List α} :
    (∀ x ∈ withEarlier l, key x.2 ∉ x.1.map key) ↔ (l.map key).Nodup := by
  induction l with
  | nil => simp [withEarlier]
  | cons a l ih =>
    have hHead : key a ∉ l.map key ↔ ∀ x ∈ withEarlier l, key x.2 ≠ key a := by
      rw [forall_withEarlier_snd (P := fun b => key b ≠ key a), List.mem_map]
      exact ⟨fun h b hb hEq => h ⟨b, hb, hEq⟩, fun h ⟨b, hb, hEq⟩ => h b hb hEq⟩
    rw [withEarlier_cons, List.forall_mem_cons, List.forall_mem_map, List.map_cons, List.nodup_cons,
      ← ih, hHead]
    constructor
    · rintro ⟨-, h⟩
      exact ⟨fun x hx hEq => h x hx (by simp [hEq]), fun x hx hMem => h x hx (by simp [hMem])⟩
    · rintro ⟨hNe, h⟩
      refine ⟨List.not_mem_nil, fun x hx hMem => ?_⟩
      rcases List.mem_cons.mp hMem with hEq | hMem
      · exact hNe x hx hEq
      · exact h x hx hMem

/-- The keys seen so far stay those of the members so far. -/
theorem mem_seen_cons {key : α → β} {seen : List β} {before : List α} {a : α}
    (h : ∀ n, n ∈ seen ↔ n ∈ before.map key) (n : β) :
    n ∈ key a :: seen ↔ n ∈ (before ++ [a]).map key := by
  rw [List.mem_cons, h, List.map_append, List.mem_append, or_comm, List.map_singleton,
    List.mem_singleton]

end Earlier

/-- In a list without repeated keys, to look a key up is to find its entry. -/
theorem lookup_eq_some_iff_mem {l : List (String × String)} (h : (l.map Prod.fst).Nodup)
    {k v : String} : l.lookup k = some v ↔ (k, v) ∈ l := by
  rw [List.lookup_eq_some_iff]
  constructor
  · rintro ⟨l₁, l₂, rfl, -⟩
    exact List.mem_append_right _ (List.mem_cons_self ..)
  · intro hMem
    obtain ⟨l₁, l₂, rfl⟩ := List.append_of_mem hMem
    refine ⟨l₁, l₂, rfl, fun x hx => ?_⟩
    rw [List.map_append, List.map_cons, List.nodup_append] at h
    have hNe := h.2.2 x.1 (List.mem_map_of_mem hx) k (List.mem_cons_self ..)
    rw [bne_iff_ne]
    exact hNe.symm

/-! ## Computations that report -/

/-- The fault `f`, unless the condition holds. -/
def violation (ok : Prop) [Decidable ok] (f : Fault) : List Fault :=
  if ok then [] else [f]

theorem violation_of {ok : Prop} [Decidable ok] {f : Fault} (h : ok) : violation ok f = [] :=
  if_pos h

theorem violation_of_not {ok : Prop} [Decidable ok] {f : Fault} (h : ¬ok) : violation ok f = [f] :=
  if_neg h

/-- There is no violation exactly if the condition holds. -/
theorem violation_eq_nil {ok : Prop} [Decidable ok] {f : Fault} : violation ok f = [] ↔ ok := by
  refine ⟨fun h => ?_, violation_of⟩
  by_contra hNot
  rw [violation_of_not hNot] at h
  cases h

/-- A computation **reports** a list of violations: it goes through if there is none, and is refused
for the first one otherwise. -/
def Reports {α : Type} (x : Except Fault α) (vs : List Fault) : Prop :=
  match x with
  | .ok _ => vs = []
  | .error f => vs.head? = some f

namespace Reports

variable {α β : Type} {x : Except Fault α} {vs ws : List Fault}

/-- What reports goes through exactly if there is nothing to report. -/
theorem ok_iff (h : Reports x vs) : (∃ a, x = .ok a) ↔ vs = [] := by
  cases x with
  | ok a => simpa [Reports] using h
  | error f =>
    have hHead : vs.head? = some f := h
    constructor
    · rintro ⟨a, ha⟩
      cases ha
    · rintro rfl
      cases hHead

/-- What reports is refused for the first violation and for nothing else. -/
theorem error_iff (h : Reports x vs) {f : Fault} : x = .error f ↔ vs.head? = some f := by
  cases x with
  | ok a =>
    obtain rfl : vs = [] := h
    simp
  | error g =>
    have hHead : vs.head? = some g := h
    rw [hHead, Except.error.injEq, Option.some.injEq]

/-- One computation after another reports the violations of both. -/
theorem bind {f : α → Except Fault β} (h : Reports x vs) (hNext : ∀ a, x = .ok a → Reports (f a) ws) :
    Reports (x >>= f) (vs ++ ws) := by
  cases x with
  | ok a =>
    obtain rfl : vs = [] := h
    exact hNext a rfl
  | error g =>
    have hHead : vs.head? = some g := h
    show (vs ++ ws).head? = some g
    rw [List.head?_append, hHead]
    rfl

/-- One check reports one violation at most. -/
theorem check (ok : Prop) [Decidable ok] (a : α) (f : Fault) :
    Reports (if ok then .ok a else .error f) (violation ok f) := by
  unfold violation
  split <;> rfl

/-- A computation for every member reports the violations of all of them, in order. -/
theorem mapM {f : β → Except Fault α} {vs : β → List Fault} {l : List β}
    (h : ∀ b ∈ l, Reports (f b) (vs b)) : Reports (l.mapM f) (l.flatMap vs) := by
  induction l with
  | nil => exact rfl
  | cons b l ih =>
    obtain ⟨hHead, hRest⟩ := List.forall_mem_cons.mp h
    rw [List.mapM_cons, List.flatMap_cons]
    refine hHead.bind fun a _ => ?_
    have hMap : Reports (l.mapM f >>= fun as => pure (a :: as)) (l.flatMap vs ++ []) :=
      (ih hRest).bind fun _ _ => rfl
    rwa [List.append_nil] at hMap

end Reports

/-! ## Everything that can be wrong -/

/-- All signals of a chip, inputs before outputs. -/
def Chip.signals (c : Chip) : List Signal := c.inputs ++ c.outputs

/-- What can be wrong with a net, given the nets before it. -/
def Signal.violations (circuit : String) (earlier : List Signal) (s : Signal) : List Fault :=
  violation (1 ≤ s.width ∧ s.width ≤ 16) (.invalidWidth s.name s.width) ++
  violation (s.name ∉ earlier.map Signal.name) (.duplicatePin circuit s.name)

namespace Placement

/-- What can be wrong with a connection, given the connections before it. -/
def connectionViolations (it : Placement) (chip : Chip) (earlier : List (String × String))
    (pin : String) : List Fault :=
  violation (pin ∉ earlier.map Prod.fst) (.duplicatePin it.chip pin) ++
  violation (pin ∈ chip.signals.map Signal.name) (.unknownPin it.chip pin)

/-- What can be wrong with where a signal of the chip leads. -/
def netViolations (it : Placement) (p : Plan) (s : Signal) : List Fault :=
  match it.connections.lookup s.name with
  | none => [.unknownPin it.chip s.name]
  | some net => violation (net ∈ p.nets.map Signal.name) (.unknownPin p.name net)

/-- The declared net that a signal of the chip is connected to. -/
def net? (it : Placement) (p : Plan) (s : Signal) : Option Signal :=
  (it.connections.lookup s.name).bind fun net => p.nets.find? fun t => t.name == net

/-- A net of another width than the signal that is connected to it. -/
def widthViolations (it : Placement) (p : Plan) (chip : Chip) (s : Signal) : List Fault :=
  match it.net? p s with
  | none => []
  | some net =>
    violation (s.width = net.width) (.widthMismatch s!"{chip.name}.{s.name}" s.width net.width)

/-- What can be wrong with a part. -/
def violations (it : Placement) (p : Plan) (catalog : Catalog) : List Fault :=
  match catalog.chips[it.chip]? with
  | none => [.unknownChip it.chip]
  | some chip =>
    (withEarlier it.connections).flatMap (fun x => it.connectionViolations chip x.1 x.2.1) ++
    chip.signals.flatMap (it.netViolations p) ++
    chip.signals.flatMap (it.widthViolations p chip)

end Placement

/-- **Everything that is wrong with a plan**, in the order in which it counts. -/
def Plan.violations (p : Plan) (catalog : Catalog) : List Fault :=
  (withEarlier p.nets).flatMap (fun x => x.2.violations p.name x.1) ++
  p.parts.flatMap fun it => it.violations p catalog

/-! ## Building reports the first violation -/

/-- A valid width is from 1 to 16. -/
theorem Width.isValid_iff {w : Width} : w.isValid = true ↔ 1 ≤ w ∧ w ≤ 16 := by
  rw [Width.isValid, Bool.and_eq_true, decide_eq_true_eq, decide_eq_true_eq]
  rfl

/-- A pin is made unless its width is invalid. -/
theorem Pin.reports_ofSignal (s : Signal) : Reports (Pin.ofSignal s)
    (violation (1 ≤ s.width ∧ s.width ≤ 16) (.invalidWidth s.name s.width)) := by
  simp only [Pin.ofSignal, Width.isValid_iff]
  exact Reports.check ..

/-- The names seen so far are those of the nets `before`. -/
theorem Board.reports_placeNets {b : Board} {circuit : String} {seen : List String}
    (before : List Signal) {ss : List Signal} (hSeen : ∀ n, n ∈ seen ↔ n ∈ before.map Signal.name) :
    Reports (b.placeNets circuit seen ss)
      ((withEarlier ss).flatMap fun x => x.2.violations circuit (before ++ x.1)) := by
  induction ss generalizing b seen before with
  | nil => exact rfl
  | cons s ss ih =>
    rw [placeNets, flatMap_withEarlier_cons, List.append_nil, Signal.violations, List.append_assoc]
    -- the width counts before the name
    refine (Pin.reports_ofSignal s).bind fun pin _ => ?_
    by_cases hName : s.name ∈ seen
    · rw [if_pos hName, violation_of_not (not_not_intro ((hSeen s.name).mp hName))]
      exact rfl
    · rw [if_neg hName, violation_of (mt (hSeen s.name).mpr hName), List.nil_append]
      have hRest := ih (b := b.place pin) (before ++ [s]) (mem_seen_cons hSeen)
      simpa only [List.append_assoc, List.singleton_append] using hRest

namespace Placement

variable {it : Placement} {p : Plan} {catalog : Catalog} {chip : Chip}

/-- The connections of a part are checked in order, each against those before it. -/
theorem reports_check {seen : List String} (before : List (String × String))
    {rest : List (String × String)} (hSeen : ∀ n, n ∈ seen ↔ n ∈ before.map Prod.fst) :
    Reports (check it.chip (chip.signals.map Signal.name) seen rest)
      ((withEarlier rest).flatMap fun x =>
        it.connectionViolations chip (before ++ x.1) x.2.1) := by
  induction rest generalizing seen before with
  | nil => exact rfl
  | cons connection rest ih =>
    obtain ⟨pin, net⟩ := connection
    -- a repeated name counts before an unknown one
    rw [check, flatMap_withEarlier_cons, List.append_nil, connectionViolations]
    by_cases hName : pin ∈ seen
    · rw [if_pos hName, violation_of_not (not_not_intro ((hSeen pin).mp hName))]
      exact rfl
    · rw [if_neg hName, violation_of (mt (hSeen pin).mpr hName), List.nil_append]
      by_cases hSignal : pin ∈ chip.signals.map Signal.name
      · rw [if_neg (not_not_intro hSignal), violation_of hSignal, List.nil_append]
        have hRest := ih (before ++ [(pin, net)]) (mem_seen_cons hSeen)
        simpa only [List.append_assoc, List.singleton_append] using hRest
      · rw [if_pos hSignal, violation_of_not hSignal]
        exact rfl

/-- A signal of the chip is looked for among the connections, and its net among the nets. -/
theorem reports_resolve {base : PinId} (s : Signal) :
    Reports (it.resolve p.name (netPin? base p.nets) s.name) (it.netViolations p s) := by
  unfold resolve netViolations
  cases it.connections.lookup s.name with
  | none => exact rfl
  | some net =>
    have hNone : netPin? base p.nets net = none ↔ net ∉ p.nets.map Signal.name := by
      simp [netPin?]
    by_cases hNet : net ∈ p.nets.map Signal.name
    · obtain ⟨q, hPin⟩ := Option.ne_none_iff_exists'.mp (mt hNone.mp (not_not_intro hNet))
      simp only [hPin, violation_of hNet]
      exact rfl
    · simp only [hNone.mpr hNet, violation_of_not hNet]
      exact rfl

/-- On the board that the nets were added to, the pin that a signal leads to has the width of the net
that the signal is connected to. -/
theorem widthOf_resolve {b : Board} {s : Signal} {q : PinId}
    (h : it.resolve p.name (netPin? b.size p.nets) s.name = .ok q) :
    ∃ net, it.net? p s = some net ∧ (b.grow p.nets).widthOf q = net.width := by
  obtain ⟨name, hLookup, hPin⟩ := resolve_eq_ok_iff.mp h
  obtain ⟨k, hk, rfl⟩ := Option.map_eq_some_iff.mp hPin
  obtain ⟨hLt, hName, hFirst⟩ := List.findIdx?_eq_some_iff_getElem.mp hk
  -- both look for the first net of that name
  refine ⟨p.nets[k], ?_, ?_⟩
  · rw [net?, hLookup, Option.bind_some, List.find?_eq_some_iff_getElem]
    refine ⟨hName, k, hLt, rfl, fun j hj => ?_⟩
    simpa using hFirst j hj
  · rw [Board.widthOf, Board.pin?_grow_of_le (Nat.le_add_right ..), Nat.add_sub_cancel_left,
      List.getElem?_eq_getElem hLt]
    rfl

/-- The first net of another width than its signal is reported. The number of pins is right already. -/
theorem reports_checkSide {b : Board} {side : Side} {signals : List Signal} {pins : List PinId}
    (h : List.Forall₂ (fun s q => ∃ net, it.net? p s = some net ∧ b.widthOf q = net.width)
      signals pins) :
    Reports (Cell.checkSide b chip.name side signals pins)
      (signals.flatMap (it.widthViolations p chip)) := by
  rw [Cell.checkSide, if_neg (not_not_intro h.length_eq)]
  induction h with
  | nil => exact rfl
  | @cons s q signals pins hHead _ ih =>
    obtain ⟨net, hNet, hWidth⟩ := hHead
    rw [List.zip_cons_cons, List.find?_cons, List.flatMap_cons, widthViolations, hNet]
    by_cases hEq : s.width = net.width
    · have hBne : (s.width != b.widthOf q) = false := by rw [hWidth, hEq, bne_self_eq_false]
      simp only [hBne, violation_of hEq, List.nil_append]
      exact ih
    · have hBne : (s.width != b.widthOf q) = true := by
        rw [hWidth, bne_iff_ne]
        exact hEq
      simp only [hBne, violation_of_not hEq]
      rw [← hWidth]
      exact rfl

/-- Making the cell of a part reports the first violation of the part. -/
theorem reports_cell {b : Board} :
    Reports (it.cell catalog (b.grow p.nets) p.name (netPin? b.size p.nets))
      (it.violations p catalog) := by
  unfold cell violations Catalog.create
  cases catalog.chips[it.chip]? with
  | none => exact rfl
  | some chip =>
    show Reports (check it.chip (chip.signals.map Signal.name) [] it.connections >>= _) _
    simp only [Chip.signals, List.flatMap_append, List.append_assoc]
    -- each side is resolved by the same rule, and the pins have the widths of their nets
    have hSide : ∀ signals : List Signal, Reports
        (signals.mapM fun s => it.resolve p.name (netPin? b.size p.nets) s.name)
        (signals.flatMap (it.netViolations p)) :=
      fun signals => Reports.mapM fun s _ => reports_resolve s
    have hWidths : ∀ (signals : List Signal) (pins : List PinId),
        (signals.mapM fun s => it.resolve p.name (netPin? b.size p.nets) s.name) = .ok pins →
        List.Forall₂ (fun s q => ∃ net, it.net? p s = some net ∧
          (b.grow p.nets).widthOf q = net.width) signals pins :=
      fun signals pins hPins => (mapM_eq_ok_iff.mp hPins).imp fun _ _ => widthOf_resolve
    refine Reports.bind (reports_check [] (by simp)) fun _ _ => ?_
    refine (hSide chip.inputs).bind fun inputs hInputs => ?_
    refine (hSide chip.outputs).bind fun outputs hOutputs => ?_
    refine (reports_checkSide (hWidths _ _ hInputs)).bind fun _ _ => ?_
    rw [← List.append_nil (chip.outputs.flatMap _)]
    exact (reports_checkSide (hWidths _ _ hOutputs)).bind fun _ _ => rfl

end Placement

/-- **Building a plan reports the first violation**, on whatever board. -/
theorem Plan.reports_build (p : Plan) (catalog : Catalog) (b : Board) :
    Reports (p.build catalog b) (p.violations catalog) := by
  unfold build violations
  refine Reports.bind (Board.reports_placeNets [] (by simp)) fun b' hNets => ?_
  obtain ⟨-, -, rfl⟩ := Board.placeNets_eq_ok_iff.mp hNets
  rw [← List.append_nil (p.parts.flatMap _)]
  refine Reports.bind (Reports.mapM fun it _ => ?_) fun _ _ => rfl
  exact Placement.reports_cell

/-! ## Well-formed plans -/

/-- A part **fits** a chip: its connections name every signal of the chip once and nothing else, all
nets are declared, and each has the width of the signals on it. -/
structure Placement.Fits (it : Placement) (p : Plan) (chip : Chip) : Prop where
  once : (it.connections.map Prod.fst).Nodup
  signals : ∀ pin, pin ∈ it.connections.map Prod.fst ↔ pin ∈ chip.signals.map Signal.name
  nets : ∀ x ∈ it.connections, x.2 ∈ p.nets.map Signal.name
  widths : ∀ s ∈ chip.signals, ∀ net ∈ p.nets, (s.name, net.name) ∈ it.connections →
    s.width = net.width

/-- A plan is **well-formed**: all nets have widths that a pin can have and names of their own, and
every part fits the chip that it names. -/
structure Plan.WellFormed (p : Plan) (catalog : Catalog) : Prop where
  widths : ∀ s ∈ p.nets, 1 ≤ s.width ∧ s.width ≤ 16
  names : (p.nets.map Signal.name).Nodup
  parts : ∀ it ∈ p.parts, ∃ chip, catalog.create it.chip = .ok chip ∧ it.Fits p chip

theorem Catalog.create_eq_ok_iff {catalog : Catalog} {name : String} {chip : Chip} :
    catalog.create name = .ok chip ↔ catalog.chips[name]? = some chip := by
  unfold create
  cases catalog.chips[name]? <;> simp

namespace Placement

variable {it : Placement} {p : Plan} {catalog : Catalog} {chip : Chip} {s : Signal}

/-- Nothing is wrong with connections that name signals of the chip, none of them twice. -/
theorem connectionViolations_eq_nil :
    (withEarlier it.connections).flatMap (fun x => it.connectionViolations chip x.1 x.2.1) = [] ↔
      (it.connections.map Prod.fst).Nodup ∧
        ∀ x ∈ it.connections, x.1 ∈ chip.signals.map Signal.name := by
  rw [List.flatMap_eq_nil_iff, ← forall_withEarlier_iff_nodup,
    ← forall_withEarlier_snd (l := it.connections), ← forall₂_and]
  simp only [connectionViolations, List.append_eq_nil_iff, violation_eq_nil]

/-- Nothing is wrong with a signal that is connected to a declared net. -/
theorem netViolations_eq_nil :
    it.netViolations p s = [] ↔
      ∃ net, it.connections.lookup s.name = some net ∧ net ∈ p.nets.map Signal.name := by
  unfold netViolations
  cases it.connections.lookup s.name with
  | none => simp
  | some net => simp only [violation_eq_nil, Option.some.injEq, exists_eq_left']

/-- Nothing is wrong with a net of the width of the signal; no net is wrong in another way. -/
theorem widthViolations_eq_nil :
    it.widthViolations p chip s = [] ↔ ∀ net, it.net? p s = some net → s.width = net.width := by
  unfold widthViolations
  cases it.net? p s with
  | none => simp
  | some net => simp only [violation_eq_nil, Option.some.injEq, forall_eq']

/-- When no name stands for two things, a signal is connected to a net exactly if the connections
say so. -/
theorem net?_eq_some_iff (hOnce : (it.connections.map Prod.fst).Nodup)
    (hNames : (p.nets.map Signal.name).Nodup) {net : Signal} :
    it.net? p s = some net ↔ net ∈ p.nets ∧ (s.name, net.name) ∈ it.connections := by
  rw [net?, Option.bind_eq_some_iff]
  constructor
  · rintro ⟨name, hLookup, hFind⟩
    obtain rfl : net.name = name := by simpa using List.find?_some hFind
    exact ⟨List.mem_of_find?_eq_some hFind, (lookup_eq_some_iff_mem hOnce).mp hLookup⟩
  · rintro ⟨hNet, hMem⟩
    refine ⟨net.name, (lookup_eq_some_iff_mem hOnce).mpr hMem, ?_⟩
    -- some net of that name is found, and there is only one
    obtain ⟨t, hFind⟩ : ∃ t, p.nets.find? (fun t => t.name == net.name) = some t :=
      Option.isSome_iff_exists.mp (List.find?_isSome.mpr ⟨net, hNet, beq_self_eq_true _⟩)
    have hName : t.name = net.name := by simpa using List.find?_some hFind
    rw [hFind, List.inj_on_of_nodup_map hNames (List.mem_of_find?_eq_some hFind) hNet hName]

/-- A part is without violations exactly if it fits its chip. -/
theorem violations_eq_nil (hNames : (p.nets.map Signal.name).Nodup) :
    it.violations p catalog = [] ↔ ∃ chip, catalog.create it.chip = .ok chip ∧ it.Fits p chip := by
  simp only [Catalog.create_eq_ok_iff]
  unfold violations
  cases catalog.chips[it.chip]? with
  | none => simp
  | some chip =>
    rw [List.append_eq_nil_iff, List.append_eq_nil_iff, connectionViolations_eq_nil]
    simp only [Option.some.injEq, exists_eq_left', List.flatMap_eq_nil_iff, netViolations_eq_nil,
      widthViolations_eq_nil]
    -- from what is checked to what is meant, and back
    constructor
    · rintro ⟨⟨⟨hOnce, hKnown⟩, hNet⟩, hWidth⟩
      refine ⟨hOnce, fun pin => ⟨fun h => ?_, fun h => ?_⟩, fun x hx => ?_, ?_⟩
      · obtain ⟨x, hx, rfl⟩ := List.mem_map.mp h
        exact hKnown x hx
      · obtain ⟨s, hs, rfl⟩ := List.mem_map.mp h
        obtain ⟨net, hLookup, -⟩ := hNet s hs
        exact List.mem_map_of_mem ((lookup_eq_some_iff_mem hOnce).mp hLookup)
      · -- the signal of the connection leads to a declared net, and to no other than this one
        obtain ⟨s, hs, hName⟩ := List.mem_map.mp (hKnown x hx)
        obtain ⟨net, hLookup, hDeclared⟩ := hNet s hs
        rw [hName, (lookup_eq_some_iff_mem hOnce).mpr hx] at hLookup
        rwa [Option.some.inj hLookup]
      · intro s hs net hDeclared hMem
        exact hWidth s hs net ((net?_eq_some_iff hOnce hNames).mpr ⟨hDeclared, hMem⟩)
    · intro h
      refine ⟨⟨⟨h.once, fun x hx => (h.signals _).mp (List.mem_map_of_mem hx)⟩, ?_⟩, ?_⟩
      · intro s hs
        obtain ⟨x, hx, hName⟩ := List.mem_map.mp ((h.signals s.name).mpr (List.mem_map_of_mem hs))
        refine ⟨x.2, (lookup_eq_some_iff_mem h.once).mpr ?_, h.nets x hx⟩
        rwa [← hName]
      · intro s hs net hNet
        obtain ⟨hDeclared, hMem⟩ := (net?_eq_some_iff h.once hNames).mp hNet
        exact h.widths s hs net hDeclared hMem

end Placement

/-- A plan is without violations exactly if it is well-formed. -/
theorem Plan.violations_eq_nil {p : Plan} {catalog : Catalog} :
    p.violations catalog = [] ↔ p.WellFormed catalog := by
  have hNets : (withEarlier p.nets).flatMap (fun x => x.2.violations p.name x.1) = [] ↔
      (∀ s ∈ p.nets, 1 ≤ s.width ∧ s.width ≤ 16) ∧ (p.nets.map Signal.name).Nodup := by
    rw [List.flatMap_eq_nil_iff, ← forall_withEarlier_iff_nodup,
      ← forall_withEarlier_snd (l := p.nets), ← forall₂_and]
    simp only [Signal.violations, List.append_eq_nil_iff, violation_eq_nil]
  rw [violations, List.append_eq_nil_iff, hNets, List.flatMap_eq_nil_iff]
  constructor
  · rintro ⟨⟨hWidths, hNames⟩, hParts⟩
    exact ⟨hWidths, hNames, fun it hIt => (Placement.violations_eq_nil hNames).mp (hParts it hIt)⟩
  · intro h
    exact ⟨⟨h.widths, h.names⟩,
      fun it hIt => (Placement.violations_eq_nil h.names).mpr (h.parts it hIt)⟩

/-! ## Circuits that are wired as planned -/

/-- The pins on one side of a cell are the nets of the circuit that the part names for the signals on
that side. -/
def Circuit.Wired (c : Circuit) (b : Board) (it : Placement) (signals : List Signal)
    (pins : List PinId) : Prop :=
  List.Forall₂ (fun s q => q ∈ c.nets ∧ (s.name, b.nameOf q) ∈ it.connections) signals pins

/-- The circuit `c` on the board `b'` **realises** a plan on top of the board `b`: it has a new pin for
every net, with the name and the width that were declared and holding zero, in the order of
declaration, and a cell for every part, in order, each on the very nets that the part names. -/
structure Circuit.Realises (c : Circuit) (p : Plan) (catalog : Catalog) (b b' : Board) : Prop where
  name : c.name = p.name
  inputs : c.inputs.map b'.pin? = p.inputs.map fun s => some ⟨s, 0⟩
  outputs : c.outputs.map b'.pin? = p.outputs.map fun s => some ⟨s, 0⟩
  internals : c.internals.map b'.pin? = p.internals.map fun s => some ⟨s, 0⟩
  distinct : c.nets.Nodup
  fresh : ∀ q ∈ c.nets, b.size ≤ q
  kept : ∀ q < b.size, b'.pin? q = b.pin? q
  cells : List.Forall₂ (fun it cell => catalog.create it.chip = .ok cell.chip ∧
    c.Wired b' it cell.chip.inputs cell.inputs ∧ c.Wired b' it cell.chip.outputs cell.outputs)
    p.parts c.cells

theorem Board.pin?_grow_of_lt {b : Board} {ss : List Signal} {q : PinId} (h : q < b.size) :
    (b.grow ss).pin? q = b.pin? q := by
  unfold pin? grow
  exact Array.getElem?_append_left h

/-- The pins of some of the new signals. -/
theorem Board.map_pin?_grow (b : Board) (l₁ l₂ l₃ : List Signal) :
    (List.range' (b.size + l₁.length) l₂.length).map (b.grow (l₁ ++ l₂ ++ l₃)).pin? =
      l₂.map fun s => some ⟨s, 0⟩ := by
  apply List.ext_getElem?
  intro i
  rw [List.getElem?_map, List.getElem?_map]
  by_cases hi : i < l₂.length
  · have hSub : b.size + l₁.length + i - b.size = l₁.length + i := by omega
    rw [List.getElem?_range' hi, Nat.one_mul, Option.map_some,
      pin?_grow_of_le (by omega), hSub, List.append_assoc, List.getElem?_append_right (by omega),
      Nat.add_sub_cancel_left, List.getElem?_append_left hi, List.getElem?_eq_getElem hi]
    rfl
  · rw [List.getElem?_eq_none (by simpa using hi), List.getElem?_eq_none (by simpa using hi)]
    rfl

/-- The pin that a signal leads to is the net that the part names for it. -/
theorem Placement.nameOf_resolve {it : Placement} {p : Plan} {b : Board} {pin : String} {q : PinId}
    (h : it.resolve p.name (netPin? b.size p.nets) pin = .ok q) :
    (pin, (b.grow p.nets).nameOf q) ∈ it.connections := by
  obtain ⟨net, hLookup, hPin⟩ := resolve_eq_ok_iff.mp h
  obtain ⟨l₁, l₂, hSplit, -⟩ := List.lookup_eq_some_iff.mp hLookup
  obtain ⟨k, hk, rfl⟩ := Option.map_eq_some_iff.mp hPin
  obtain ⟨hLt, hName, -⟩ := List.findIdx?_eq_some_iff_getElem.mp hk
  have hNet : (b.grow p.nets).nameOf (b.size + k) = net := by
    rw [Board.nameOf, Board.pin?_grow_of_le (Nat.le_add_right ..), Nat.add_sub_cancel_left,
      List.getElem?_eq_getElem hLt]
    simpa using hName
  rw [hNet, hSplit]
  exact List.mem_append_right _ (List.mem_cons_self ..)

namespace Plan

/-- **A circuit that was built is wired as planned.** -/
theorem realises_of_build {p : Plan} {catalog : Catalog} {b b' : Board} {c : Circuit}
    (h : p.build catalog b = .ok (b', c)) : c.Realises p catalog b b' := by
  have hNets := nets_of_build h
  have hDistinct := nets_nodup_of_build h
  obtain ⟨hPlace, cells, rfl, hCells⟩ := build_eq_ok_iff.mp h
  obtain ⟨-, -, rfl⟩ := Board.placeNets_eq_ok_iff.mp hPlace
  have hSide : ∀ (it : Placement) (signals : List Signal) (pins : List PinId),
      List.Forall₂ (fun s q => it.resolve p.name (netPin? b.size p.nets) s.name = .ok q)
        signals pins →
      (p.circuit b.size cells).Wired (b.grow p.nets) it signals pins := by
    intro it signals pins hPins
    refine hPins.imp fun s q hq => ⟨?_, Placement.nameOf_resolve hq⟩
    obtain ⟨net, -, hPin⟩ := Placement.resolve_eq_ok_iff.mp hq
    rw [hNets, List.mem_range'_1]
    exact netPin?_eq_some hPin
  -- the three lists of nets are three stretches of the new pins
  refine ⟨rfl, ?_, ?_, ?_, hDistinct, ?_, fun q hq => Board.pin?_grow_of_lt hq, ?_⟩
  · have hInputs := b.map_pin?_grow [] p.inputs (p.outputs ++ p.internals)
    rwa [List.nil_append, ← List.append_assoc] at hInputs
  · exact b.map_pin?_grow p.inputs p.outputs p.internals
  · have hInternals := b.map_pin?_grow (p.inputs ++ p.outputs) p.internals []
    rwa [List.append_nil, List.length_append, ← Nat.add_assoc] at hInternals
  · intro q hq
    rw [hNets, List.mem_range'_1] at hq
    exact hq.1
  · refine hCells.imp fun it cell hCell => ?_
    obtain ⟨hChip, hInputs, hOutputs⟩ := Placement.cell_eq_ok hCell
    exact ⟨hChip, hSide it _ _ hInputs, hSide it _ _ hOutputs⟩

/--
**Which plans are built, and how.** Building a plan goes through exactly if the plan is well-formed.
The circuit then realises the plan. Otherwise the plan is refused for the first of its violations.
-/
theorem build_exact (p : Plan) (catalog : Catalog) (b : Board) :
    ((∃ r, p.build catalog b = .ok r) ↔ p.WellFormed catalog) ∧
    (∀ b' c, p.build catalog b = .ok (b', c) → c.Realises p catalog b b') ∧
    (∀ f, p.build catalog b = .error f ↔ (p.violations catalog).head? = some f) := by
  have hReports := p.reports_build catalog b
  refine ⟨?_, fun b' c hBuild => realises_of_build hBuild, fun f => hReports.error_iff⟩
  rw [hReports.ok_iff, violations_eq_nil]

/-- A chip that gives the same name to two inputs. -/
def twin : Chip := .programmed "Twin" [.bit "x", .bit "x"] [.bit "y"] [.copy 0 1]

/-- A part on that chip: one connection is enough for both inputs. -/
def twinned : Plan :=
  { name := "Twinned", inputs := [.bit "a"], outputs := [.bit "q"]
    parts := [⟨"Twin", [("y", "q"), ("x", "a")]⟩] }

/-- The same with a second net called `a`, a signal named twice, and a signal that the chip does not
have in place of one that it has. -/
def muddled : Plan :=
  { twinned with
    outputs := [⟨"a", 17⟩]
    parts := [⟨"Twin", [("x", "a"), ("x", "a"), ("z", "b")]⟩] }

/-- The first plan is built, with both inputs of the cell on the one net; of the five things that are
wrong with the other, the first is reported. -/
theorem build_exact_twin :
    let catalog := Catalog.empty.register "Twin" twin
    (∃ b' c, twinned.build catalog .empty = .ok (b', c) ∧
      c.Realises twinned catalog .empty b' ∧ c.cells.map Cell.inputs = [[0, 0]]) ∧
    muddled.violations catalog =
      [.invalidWidth "a" 17, .duplicatePin "Twinned" "a", .duplicatePin "Twin" "x",
        .unknownPin "Twin" "z", .unknownPin "Twin" "y"] ∧
    muddled.build catalog .empty = .error (.invalidWidth "a" 17) := by
  intro catalog
  have hBuild : twinned.build catalog .empty = .ok (_, _) := rfl
  have hViolations : muddled.violations catalog = _ := rfl
  refine ⟨⟨_, _, hBuild, (build_exact twinned catalog .empty).2.1 _ _ hBuild, rfl⟩, hViolations, ?_⟩
  exact ((build_exact muddled catalog .empty).2.2 _).mpr rfl

end Plan

end Breadboard
