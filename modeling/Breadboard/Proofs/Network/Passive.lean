import Breadboard.Proofs.Network.Induction

/-!
# Breadboard — fan-out among listeners that only listen

A network is **passive** if no listener of it has anything left on its script: a listener records
the event, and may break down, but changes nothing. Fan-out in such a network leaves everything but
the trace as it was, and what it adds to the trace can be said without following the walk:

* `Told busy e t` — what telling a target leads to while the reporters `busy` are passing something
  on, each entry with the positions of the registrations that lead to it;
* `Traces due new` — of the entries that say where an event ended, `new` holds those that are due,
  each once and in the order of positions.

That fan-out traces what is told (`yieldsDue`) is one induction over fan-out, with one step for each
rule.
-/

namespace Breadboard

/-- Whether an entry says where an event ended: who heard it, or where it was dropped. -/
def Entry.isStop : Entry → Bool
  | .heard .. => true
  | .noticed (.loopedBack ..) => true
  | _ => false

/-- A reporter without its mark and on no walk, but alive if it is alive. -/
def Reporter.atRest (it : Reporter) : Reporter :=
  { it with reemitting := false, owned := it.alive, calls := 0 }

namespace Network

/-! ## Traces in the order of positions -/

/-- The places where an event ended are those that are due, in the order of their positions: that of
the walk, where a registration comes with all that follows from it before the next one. -/
def Traces (due : List Nat → Entry → Prop) (new : List Entry) : Prop :=
  ∃ dues : List (List Nat × Entry),
    new.filter Entry.isStop = dues.map Prod.snd ∧
    dues.Pairwise (fun a b => a.1 < b.1) ∧
    ∀ is x, (is, x) ∈ dues ↔ due is x

section Traces

variable {due due' : List Nat → Entry → Prop} {new new' : List Entry}

/-- Traces depend on what is due, not on how that is said. -/
theorem Traces.congr (h : Traces due new) (hIff : ∀ is x, due is x ↔ due' is x) :
    Traces due' new := by
  obtain ⟨dues, hNew, hSorted, hMem⟩ := h
  exact ⟨dues, hNew, hSorted, fun is x => (hMem is x).trans (hIff is x)⟩

/-- Where nothing is due, nothing is traced. -/
theorem traces_nil (h : ∀ is x, ¬ due is x) : Traces due [] :=
  ⟨[], rfl, .nil, fun is x => by simp [h is x]⟩

/-- One entry, at the place where the walk stands. -/
theorem traces_stop {x : Entry} (hx : x.isStop = true)
    (h : ∀ is y, due is y ↔ is = [] ∧ y = x) : Traces due [x] := by
  refine ⟨[([], x)], by simp [hx], by simp, fun is y => ?_⟩
  simp [h is y]

/-- An entry at the front that is not the end of an event does not count … -/
theorem Traces.cons_of_not_stop (h : Traces due new) {x : Entry} (hx : x.isStop = false) :
    Traces due (x :: new) := by
  obtain ⟨dues, hNew, rest⟩ := h
  exact ⟨dues, by simp [hx, hNew], rest⟩

/-- … nor does one at the back. -/
theorem Traces.append_of_not_stop (h : Traces due new) {x : Entry} (hx : x.isStop = false) :
    Traces due (new ++ [x]) := by
  obtain ⟨dues, hNew, rest⟩ := h
  exact ⟨dues, by simp [hx, hNew], rest⟩

/-- Two walks one after the other, the first through position `k` and the second behind it. -/
theorem Traces.append (h : Traces due new) (h' : Traces due' new') {k : Nat}
    (hk : ∀ is x, due' is x → ∃ j js, is = j :: js ∧ k < j) :
    Traces (fun is x => (∃ js, is = k :: js ∧ due js x) ∨ due' is x) (new ++ new') := by
  obtain ⟨dues, hNew, hSorted, hMem⟩ := h
  obtain ⟨dues', hNew', hSorted', hMem'⟩ := h'
  refine ⟨dues.map (fun d => (k :: d.1, d.2)) ++ dues', ?_, ?_, fun is x => ?_⟩
  · rw [List.filter_append, hNew, hNew', List.map_append, List.map_map]
    rfl
  · rw [List.pairwise_append]
    refine ⟨List.pairwise_map.2 (hSorted.imp fun hab => ?_), hSorted', ?_⟩
    · exact List.cons_lt_cons_iff.2 (.inr ⟨rfl, hab⟩)
    · -- the first number already tells the two walks apart
      rintro _ ha ⟨is, x⟩ hb
      obtain ⟨a, -, rfl⟩ := List.mem_map.1 ha
      obtain ⟨j, js, rfl, hj⟩ := hk is x ((hMem' is x).1 hb)
      exact List.cons_lt_cons_iff.2 (.inl hj)
  · simp only [List.mem_append, List.mem_map, Prod.mk.injEq, Prod.exists, hMem, hMem']
    refine or_congr ⟨?_, ?_⟩ Iff.rfl
    · rintro ⟨js, y, hDue, rfl, rfl⟩
      exact ⟨js, rfl, hDue⟩
    · rintro ⟨js, rfl, hDue⟩
      exact ⟨js, x, hDue, rfl, rfl⟩

end Traces

/-! ## A network with more said -/

/-- The network with further entries on its trace. -/
def said (n : Network) (new : List Entry) : Network :=
  { n with trace := n.trace ++ new.toArray }

@[simp] theorem said_nil (n : Network) : n.said [] = n := by
  simp [said]

/-- What is said in two goes is said in a row. -/
@[simp] theorem said_said (n : Network) (new new' : List Entry) :
    (n.said new).said new' = n.said (new ++ new') := by
  simp [said, Array.append_assoc]

theorem emit_eq_said (n : Network) (x : Entry) : n.emit x = n.said [x] := by
  simp [emit, said]

theorem note_eq_said (n : Network) (it : Notice) : n.note it = n.said [.noticed it] :=
  emit_eq_said n _

theorem mark_said (n : Network) (new : List Entry) (r : ReporterId) (b : Bool) :
    (n.said new).mark r b = (n.mark r b).said new := rfl

/-- A mark that is set and taken back is as if it had not been. -/
theorem mark_mark_of_unmarked {n : Network} {r : ReporterId} {it : Reporter}
    (hr : n.reporters[r]? = some it) (hm : it.reemitting = false) :
    (n.mark r true).mark r false = n := by
  have hReporters : (n.reporters.modify r fun it => { it with reemitting := true }).modify r
      (fun it => { it with reemitting := false }) = n.reporters := by
    -- at its own place the mark is back to what it was, and no other place is touched
    refine List.ext_getElem? fun i => ?_
    rw [List.getElem?_modify, List.getElem?_modify]
    by_cases hi : r = i
    · subst hi
      simp [hr, ← hm]
    · cases h : n.reporters[i]? <;> simp [hi]
  simp only [mark, hReporters]

/-- A walk that a reporter sets out on and comes back from is as if it had not been. -/
theorem endCall_said_beginCall (n : Network) (r : ReporterId) (new : List Entry) :
    ((n.beginCall r).said new).endCall r = n.said new := by
  have hReporters : ((n.beginCall r).reporters.modify r fun it => { it with calls := it.calls - 1 }) =
      n.reporters := by
    refine List.ext_getElem? fun i => ?_
    rw [beginCall, List.getElem?_modify, List.getElem?_modify]
    by_cases hi : r = i
    · subst hi
      cases h : n.reporters[r]? with
      | none => simp
      | some it =>
        cases hAlive : it.alive with
        | true => simp [hAlive]
        | false =>
          -- a dead reporter is on no walk
          have hCalls : it.calls = 0 := by simpa [Reporter.alive] using (Bool.or_eq_false_iff.1 hAlive).2
          cases it
          simp_all
    · cases h : n.reporters[i]? <;> simp [hi]
  simp only [endCall, said] at hReporters ⊢
  rw [hReporters]
  rfl

/-- No listener has anything left on its script. -/
def Passive (n : Network) : Prop :=
  ∀ it ∈ n.listeners, it.script = []

instance (n : Network) : Decidable n.Passive :=
  inferInstanceAs (Decidable (∀ it ∈ n.listeners, it.script = []))

/-- The reporters that are passing something on are those of a list. -/
def MarksAre (n : Network) (busy : List ReporterId) : Prop :=
  ∀ r, (∃ it, n.reporters[r]? = some it ∧ it.reemitting = true) ↔ r ∈ busy

/-- A reporter that gets a mark is one more that is busy. -/
theorem MarksAre.mark {n : Network} {busy : List ReporterId} (h : n.MarksAre busy)
    {r : ReporterId} {it : Reporter} (hr : n.reporters[r]? = some it) :
    (n.mark r true).MarksAre (r :: busy) := by
  intro i
  simp only [Network.mark, List.getElem?_modify, List.mem_cons, ← h i]
  by_cases hi : r = i
  · subst hi
    simp [hr]
  · simp [hi, Ne.symm hi]

/-- Setting out on a walk marks nobody. -/
theorem MarksAre.beginCall {n : Network} {busy : List ReporterId} (h : n.MarksAre busy)
    (r : ReporterId) : (n.beginCall r).MarksAre busy := by
  intro i
  rw [← h i, Network.beginCall]
  simp only [List.getElem?_modify]
  by_cases hi : r = i
  · cases n.reporters[i]? with
    | none => simp
    | some it => cases hAlive : it.alive <;> simp [hi, hAlive]
  · simp [hi]

/-- Two networks that differ in marks, walks and trace at most. -/
structure Alike (n m : Network) : Prop where
  listeners_eq : m.listeners = n.listeners
  reporters_eq : ∀ r : ReporterId,
    m.reporters[r]?.map Reporter.atRest = n.reporters[r]?.map Reporter.atRest

namespace Alike

variable {n m : Network}

theorem refl (n : Network) : Alike n n := ⟨rfl, fun _ => rfl⟩

/-- What is said does not tell networks apart … -/
theorem said (h : Alike n m) (new : List Entry) : Alike n (m.said new) :=
  ⟨h.listeners_eq, h.reporters_eq⟩

/-- A change of one reporter that does not show when it is at rest. -/
theorem modify (h : Alike n m) {f : Reporter → Reporter} (hf : ∀ it, (f it).atRest = it.atRest)
    (r : ReporterId) : Alike n { m with reporters := m.reporters.modify r f } := by
  refine ⟨h.listeners_eq, fun i => ?_⟩
  rw [← h.reporters_eq i]
  simp only [List.getElem?_modify]
  by_cases hi : r = i <;> cases m.reporters[i]? <;> simp [hi, hf]

/-- … nor do marks … -/
theorem mark (h : Alike n m) (r : ReporterId) (b : Bool) : Alike n (m.mark r b) :=
  h.modify (fun _ => by rfl) r

/-- … nor does a walk that a reporter sets out on. -/
theorem beginCall (h : Alike n m) (r : ReporterId) : Alike n (m.beginCall r) := by
  refine h.modify (fun it => ?_) r
  split
  next hAlive =>
    simp only [Reporter.atRest, hAlive]
    simp [Reporter.alive]
  next => rfl

/-- A reporter of one is a reporter of the other but for the mark and the walks that it is on. -/
theorem reporter (h : Alike n m) {r : ReporterId} {it : Reporter}
    (hr : m.reporters[r]? = some it) :
    ∃ b o k, n.reporters[r]? = some { it with reemitting := b, owned := o, calls := k } ∧
      (o || k != 0) = it.alive := by
  have hEq := h.reporters_eq r
  rw [hr] at hEq
  obtain ⟨it', hr', hSame⟩ := Option.map_eq_some_iff.1 hEq.symm
  refine ⟨it'.reemitting, it'.owned, it'.calls, hr'.trans ?_, ?_⟩
  · cases it
    cases it'
    simp_all [Reporter.atRest]
  · exact congrArg Reporter.owned hSame

theorem no_reporter (h : Alike n m) {r : ReporterId} (hr : m.reporters[r]? = none) :
    n.reporters[r]? = none := by
  simpa [hr] using (h.reporters_eq r).symm

/-- The same targets are alive in both. -/
theorem alive_eq (h : Alike n m) (t : Target) : m.alive t = n.alive t := by
  cases t with
  | listener l => rw [alive, alive, h.listeners_eq]
  | reporter r =>
    cases hr : m.reporters[r]? with
    | none => simp [alive, hr, h.no_reporter hr]
    | some it =>
      obtain ⟨b, o, k, hb, hAlive⟩ := h.reporter hr
      simp only [alive, hr, hb, Option.any_some, ← hAlive]
      rfl

end Alike

/-! ## What telling a target leads to -/

/-- Where an event ends: at a listener, which hears it, and at a reporter that is busy, which drops
it. -/
inductive Stops (n : Network) (busy : List ReporterId) (e : Event) : Target → Entry → Prop
  | heard {l : ListenerId} {it : Listener} (hl : n.listeners[l]? = some it) :
    Stops n busy e (.listener l) (.heard it.handle e)
  | loopedBack {r : ReporterId} {it : Reporter} (hr : n.reporters[r]? = some it)
    (hBusy : r ∈ busy) :
    Stops n busy e (.reporter r) (.noticed (.loopedBack it.name e.sourceName))

/-- An event ends at a target in one way. -/
theorem Stops.unique {n : Network} {busy : List ReporterId} {e : Event} {t : Target} {x y : Entry}
    (h : n.Stops busy e t x) (h' : n.Stops busy e t y) : x = y := by
  cases h <;> cases h' <;> simp_all

theorem Stops.congr {n : Network} {busy busy' : List ReporterId} {e : Event} {t : Target}
    {x : Entry} (h : n.Stops busy e t x) (hIff : ∀ r, r ∈ busy ↔ r ∈ busy') :
    n.Stops busy' e t x := by
  cases h with
  | heard hl => exact .heard hl
  | loopedBack hr hBusy => exact .loopedBack hr ((hIff _).1 hBusy)

/-- What telling a target of an event leads to, with the positions of the registrations on the way,
while the reporters `busy` are passing something on. -/
inductive Told (n : Network) : List ReporterId → Event → Target → List Nat → Entry → Prop
  | here {busy : List ReporterId} {e : Event} {t : Target} {x : Entry} (h : n.Stops busy e t x) :
    Told n busy e t [] x
  | onward {busy : List ReporterId} {e : Event} {r : ReporterId} {it : Reporter} {j : Nat}
    {t : Target} {is : List Nat} {x : Entry} (hr : n.reporters[r]? = some it) (hIdle : r ∉ busy)
    (hj : it.registrations[j]? = some t) (hAlive : n.alive t = true)
    (h : Told n (r :: busy) ⟨it.source, it.name, e.message⟩ t is x) :
    Told n busy e (.reporter r) (j :: is) x

/-- What telling the live ones of a list of targets leads to; the list starts at position `k`. -/
def Called (n : Network) (busy : List ReporterId) (e : Event) (ts : List Target) (k : Nat)
    (is : List Nat) (x : Entry) : Prop :=
  ∃ j t js, is = (k + j) :: js ∧ ts[j]? = some t ∧ n.alive t = true ∧ n.Told busy e t js x

theorem not_called_nil {n : Network} {busy : List ReporterId} {e : Event} {k : Nat}
    {is : List Nat} {x : Entry} : ¬ n.Called busy e [] k is x := by
  rintro ⟨j, t, js, -, hj, -⟩
  simp at hj

/-- The first target is called if it is alive, at its own position, and then the others. -/
theorem called_cons {n : Network} {busy : List ReporterId} {e : Event} {t : Target}
    {ts : List Target} {k : Nat} {is : List Nat} {x : Entry} :
    n.Called busy e (t :: ts) k is x ↔
      (n.alive t = true ∧ ∃ js, is = k :: js ∧ n.Told busy e t js x) ∨
        n.Called busy e ts (k + 1) is x := by
  -- the position is that of the first target, or one behind it
  constructor
  · rintro ⟨j, u, js, rfl, hj, hAlive, hTold⟩
    cases j with
    | zero =>
      obtain rfl : t = u := by simpa using hj
      exact .inl ⟨hAlive, js, rfl, hTold⟩
    | succ j => exact .inr ⟨j, u, js, by rw [Nat.add_right_comm, Nat.add_assoc], hj, hAlive, hTold⟩
  · rintro (⟨hAlive, js, rfl, hTold⟩ | ⟨j, u, js, rfl, hj, hAlive, hTold⟩)
    · exact ⟨0, t, js, rfl, rfl, hAlive, hTold⟩
    · exact ⟨j + 1, u, js, by rw [Nat.add_right_comm, Nat.add_assoc], hj, hAlive, hTold⟩

/-- All that a list of targets leads to stands at its positions. -/
theorem Called.position {n : Network} {busy : List ReporterId} {e : Event} {ts : List Target}
    {k : Nat} {is : List Nat} {x : Entry} (h : n.Called busy e ts (k + 1) is x) :
    ∃ j js, is = j :: js ∧ k < j := by
  obtain ⟨j, t, js, rfl, -⟩ := h
  exact ⟨k + 1 + j, js, rfl, by omega⟩

/-- A reporter that is not busy passes the event on to those on its list. -/
theorem told_reporter {n : Network} {busy : List ReporterId} {e : Event} {r : ReporterId}
    {it : Reporter} (hr : n.reporters[r]? = some it) (hIdle : r ∉ busy) {is : List Nat}
    {x : Entry} :
    n.Told busy e (.reporter r) is x ↔
      n.Called (r :: busy) ⟨it.source, it.name, e.message⟩ it.registrations 0 is x := by
  constructor
  · intro h
    cases h with
    | here hStop =>
      cases hStop with
      | loopedBack _ hBusy => exact absurd hBusy hIdle
    | onward hr' _ hj hAlive hTold =>
      cases hr.symm.trans hr'
      exact ⟨_, _, _, by rw [Nat.zero_add], hj, hAlive, hTold⟩
  · rintro ⟨j, t, js, rfl, hj, hAlive, hTold⟩
    rw [Nat.zero_add]
    exact .onward hr hIdle hj hAlive hTold

/-- A target at which the event ends leads to that one entry. -/
theorem told_iff_of_stops {n : Network} {busy : List ReporterId} {e : Event} {t : Target}
    {x : Entry} (h : n.Stops busy e t x) {is : List Nat} {y : Entry} :
    n.Told busy e t is y ↔ is = [] ∧ y = x := by
  constructor
  · intro hTold
    cases hTold with
    | here h' => exact ⟨rfl, h'.unique h⟩
    | onward hr hIdle =>
      cases h with
      | loopedBack _ hBusy => exact absurd hBusy hIdle
  · rintro ⟨rfl, rfl⟩
    exact .here h

/-! ## Fan-out traces what is told -/

/-- A piece of work adds to the trace, where due, and does nothing else. -/
def Yields (m : Network) (task : Task) (due : List Nat → Entry → Prop) : Prop :=
  ∃ new, m.after task = m.said new ∧ Traces due new

/-- What a piece of work leads to in a passive network. -/
def YieldsDue (n : Network) (busy : List ReporterId) (m : Network) : Task → Prop
  | .announce r message => m.Yields (.announce r message) fun is x =>
    ∃ it, n.reporters[r]? = some it ∧
      n.Called busy ⟨it.source, it.name, message⟩ it.registrations 0 is x
  | .offer name e ts => ∀ k, m.Yields (.offer name e ts) (n.Called busy e ts k)
  | .tell t e => m.Yields (.tell t e) (n.Told busy e t)
  | .perform _ => True

/-- After a call the network has only more said, whether or not the target broke down. -/
theorem exists_contain_eq_said (m : Network) (name : String) (crashed : Bool) :
    m.contain name crashed = m ∨
      m.contain name crashed = m.said [.noticed (.listenerCrashed name)] := by
  unfold contain
  split
  · exact .inr (note_eq_said m _)
  · exact .inl rfl

/-- What a call of a live target traces is traced after containment too. -/
theorem Yields.contain {m : Network} {t : Target} {e : Event} {due : List Nat → Entry → Prop}
    (h : m.Yields (.tell t e) due) (name : String) (crashed : Bool) :
    ∃ new, (m.after (.tell t e)).contain name crashed = m.said new ∧ Traces due new := by
  obtain ⟨new, hAfter, hTraces⟩ := h
  rw [hAfter]
  rcases exists_contain_eq_said (m.said new) name crashed with hEq | hEq
  · exact ⟨new, hEq, hTraces⟩
  · exact ⟨_, hEq.trans (said_said m _ _), hTraces.append_of_not_stop rfl⟩

/-- **Fan-out in a passive network** does to the trace what is told, and nothing else. -/
theorem yieldsDue (n : Network) (hPassive : n.Passive) (m : Network) (task : Task)
    (busy : List ReporterId) (hAlike : Alike n m) (hMarks : m.MarksAre busy) :
    YieldsDue n busy m task := by
  -- the network changes on the way in marks, walks and trace only; the marked reporters are `busy`
  induction m, task using fanout_induction generalizing busy with
  | announce m r message ih =>
    rw [YieldsDue, Yields, after_announce]
    cases hr : m.reporters[r]? with
    | none =>
      refine ⟨[], (said_nil m).symm, traces_nil fun is x => ?_⟩
      simp [hAlike.no_reporter hr]
    | some it =>
      obtain ⟨b, o, k, hb, -⟩ := hAlike.reporter hr
      have hWalk := ih it hr busy (note_eq_said (m.beginCall r) _ ▸ (hAlike.beginCall r).said _)
        (hMarks.beginCall r)
      obtain ⟨new, hAfter, hTraces⟩ := hWalk 0
      refine ⟨.noticed (.delivering it.name it.registrations.length message.isNone) :: new, ?_,
        (hTraces.cons_of_not_stop rfl).congr fun is x => ?_⟩
      · -- the walk has only said something, so the reporter comes back to where it was
        simp only [hAfter]
        rw [note_eq_said, said_said, List.singleton_append, endCall_said_beginCall]
      · simp [hb]
  | offer_nil m name e =>
    -- `k` counts the registrations that the walk has behind it
    intro k
    exact ⟨[], by rw [after_offer_nil, said_nil], traces_nil fun _ _ => not_called_nil⟩
  | offer_cons m name e t ts ihTell ihRest ihSkip =>
    intro k
    rw [Yields, after_offer_cons]
    cases hAlive : m.alive t with
    | false =>
      -- passed over; it has a position, but nothing is due there
      obtain ⟨new, hAfter, hTraces⟩ := ihSkip hAlive busy hAlike hMarks (k + 1)
      refine ⟨new, hAfter, hTraces.congr fun is x => ?_⟩
      rw [hAlike.alive_eq] at hAlive
      simp [called_cons, hAlive]
    | true =>
      -- the call leaves the network as it was but for the trace, so the rest of the walk starts from
      -- the same reporters, listeners and marks
      obtain ⟨new, hAfter, hTraces⟩ :=
        Yields.contain (ihTell hAlive busy hAlike hMarks) name (m.crashes t)
      have hRest := ihRest hAlive busy
      rw [hAfter] at hRest
      obtain ⟨new', hAfter', hTraces'⟩ := hRest (hAlike.said new) hMarks (k + 1)
      refine ⟨new ++ new', ?_, (hTraces.append hTraces' fun is x => Called.position).congr
        fun is x => ?_⟩
      · rw [if_pos rfl, hAfter, hAfter', said_said]
      · rw [hAlike.alive_eq] at hAlive
        simp [called_cons, hAlive]
  | tell_listener m l e ih =>
    rw [YieldsDue, Yields, after_tell_listener]
    rw [hAlike.listeners_eq]
    cases hl : n.listeners[l]? with
    | none =>
      refine ⟨[], (said_nil m).symm, traces_nil fun is x hTold => ?_⟩
      cases hTold with
      | here hStop =>
        cases hStop with
        | heard hl' => simp [hl] at hl'
    | some it =>
      have hScript : it.script = [] := hPassive it (List.mem_of_getElem? hl)
      refine ⟨[.heard it.handle e], ?_, traces_stop rfl fun is x => told_iff_of_stops (.heard hl)⟩
      simp only [hScript, emit_eq_said]
  | tell_reporter m r e ih =>
    rw [YieldsDue, Yields, after_tell_reporter]
    cases hr : m.reporters[r]? with
    | none =>
      have hr' := hAlike.no_reporter hr
      refine ⟨[], (said_nil m).symm, traces_nil fun is x hTold => ?_⟩
      cases hTold with
      | here hStop =>
        cases hStop with
        | loopedBack hr'' _ => simp [hr'] at hr''
      | onward hr'' => simp [hr'] at hr''
    | some it =>
      obtain ⟨b, o, k, hb, -⟩ := hAlike.reporter hr
      cases hm : it.reemitting with
      | true =>
        have hBusy : r ∈ busy := (hMarks r).1 ⟨it, hr, hm⟩
        refine ⟨[.noticed (.loopedBack it.name e.sourceName)], ?_,
          traces_stop rfl fun is x => told_iff_of_stops (.loopedBack hb hBusy)⟩
        simp only [hm, if_true, note_eq_said]
      | false =>
        -- passed on: while that lasts `r` is busy too, and then its mark is taken back
        have hIdle : r ∉ busy := by
          intro hBusy
          obtain ⟨it', hr', hm'⟩ := (hMarks r).2 hBusy
          cases hr.symm.trans hr'
          simp [hm] at hm'
        obtain ⟨new, hAfter, hTraces⟩ := ih it hr hm (r :: busy) (hAlike.mark r true)
          (hMarks.mark hr)
        refine ⟨new, ?_, hTraces.congr fun is x => ?_⟩
        · simp only [hm, hAfter, mark_said, mark_mark_of_unmarked hr hm]
          rfl
        · rw [told_reporter hb hIdle]
          simp [hb]
  | perform_nil => trivial
  | perform_edit => trivial
  | perform_release => trivial
  | perform_notify => trivial

end Network

end Breadboard
