import Breadboard.Network

/-!
# Breadboard — fan-out

How an event spreads. A reporter that sends an event walks a copy of its registrations, made when
it starts, and looks at each one only when its turn comes: a dead one is skipped, a live one is
called and everything that follows from the call happens before the next one is looked at.

* A **listener** follows its script, which may change registrations anywhere, let go of listeners
  and reporters and start further sending. If it breaks down at the end, that is noted and the walk
  goes on.
* A **reporter** passes the event on under its own name. While it does so it is marked, and an
  event that comes back to a marked reporter is dropped.

A reporter that is let go of in the middle of its walk ends the walk first.

**Why this ends.** A call can lead to another one only by a response taken off a script, of which
there are finitely many and none is ever put back, or by marking a reporter that was not marked,
and a mark stays until the call that set it is over. So work is ordered by the number of responses
left on all scripts (`pending`), then by the number of reporters not marked (`idle`), then by what
is left of the walk or of the list of deeds at hand (`Task.rank`, `Task.size`). Each step hands on
the evidence that scripts were only used up and that all marks are as before (`Later`).
-/

namespace Breadboard.Network

/-! ## The measure -/

/-- How many responses are left on all scripts together. -/
def pending (n : Network) : Nat :=
  n.listeners.foldr (fun l k => l.script.length + k) 0

/-- The marks of all reporters. -/
def marks (n : Network) : List Bool :=
  n.reporters.map Reporter.reemitting

/-- How many reporters are not marked. -/
def idle (n : Network) : Nat :=
  n.marks.count false

/-- What holds between a network and the same network after some fan-out: scripts have only been
used up, and every mark is as it was. -/
structure Later (n m : Network) : Prop where
  pending_le : m.pending ≤ n.pending
  marks_eq : m.marks = n.marks

theorem Later.refl (n : Network) : Later n n := ⟨Nat.le_refl _, rfl⟩

/-- Fan-out after fan-out is fan-out. -/
theorem Later.trans {n m k : Network} (h : Later n m) (h' : Later m k) : Later n k :=
  ⟨Nat.le_trans h'.pending_le h.pending_le, h'.marks_eq.trans h.marks_eq⟩

/-- As many reporters are free to pass an event on as before. -/
theorem Later.idle_eq {n m : Network} (h : Later n m) : m.idle = n.idle := by
  rw [idle, h.marks_eq, idle]

/-- Work of a smaller kind, or less work of the same kind, comes before in the order of the
measure if it starts from a later network. -/
theorem Later.descend {n m : Network} (h : Later n m) {s t : Nat × Nat}
    (hst : Prod.Lex (· < ·) (· < ·) s t) :
    Prod.Lex (· < ·) (Prod.Lex (· < ·) (Prod.Lex (· < ·) (· < ·)))
      (m.pending, m.idle, s) (n.pending, n.idle, t) := by
  rcases Nat.lt_or_eq_of_le h.pending_le with hlt | heq
  · exact .left _ _ hlt
  · rw [heq, h.idle_eq]
    exact .right _ (.right _ hst)

/-! ## What the small changes do to the measure -/

section Measure

/-- A change at one position that keeps a quantity there keeps the list of that quantity. -/
private theorem map_modify_of_eq {α β : Type} (g : α → β) (f : α → α) (h : ∀ a, g (f a) = g a)
    (l : List α) (i : Nat) : (l.modify i f).map g = l.map g := by
  induction l generalizing i with
  | nil => simp
  | cons a l ih => cases i <;> simp [h, ih]

/-- A change at one position that keeps a quantity there keeps the total of that quantity. -/
private theorem total_modify_of_eq {α : Type} (g : α → Nat) (f : α → α) (h : ∀ a, g (f a) = g a)
    (l : List α) (i : Nat) :
    (l.modify i f).foldr (fun a k => g a + k) 0 = l.foldr (fun a k => g a + k) 0 := by
  induction l generalizing i with
  | nil => simp
  | cons a l ih => cases i <;> simp [h, ih]

/-- The total of a quantity goes down where the quantity goes down at one position. -/
private theorem total_modify_lt {α : Type} (g : α → Nat) (f : α → α) {l : List α} {i : Nat} {a : α}
    (ha : l[i]? = some a) (h : g (f a) < g a) :
    (l.modify i f).foldr (fun a k => g a + k) 0 < l.foldr (fun a k => g a + k) 0 := by
  induction l generalizing i with
  | nil => simp at ha
  | cons b l ih =>
    cases i with
    | zero =>
      obtain rfl : b = a := by simpa using ha
      simpa using h
    | succ i =>
      have := ih (i := i) (by simpa using ha)
      simpa using this

/-- What goes on record touches neither scripts nor marks. -/
theorem later_emit (n : Network) (e : Entry) : Later n (n.emit e) := ⟨Nat.le_refl _, rfl⟩

theorem later_note (n : Network) (it : Notice) : Later n (n.note it) := later_emit n _

/-- A breakdown that is contained leaves a notice at most. -/
theorem later_contain (n : Network) (name : String) (crashed : Bool) :
    Later n (n.contain name crashed) := by
  unfold contain
  split
  · exact later_note n _
  · exact .refl n

/-- Registrations are no part of the measure. -/
theorem later_register (n : Network) (r : ReporterId) (t : Target) : Later n (n.register r t) :=
  ⟨Nat.le_refl _, map_modify_of_eq _ _ (fun _ => by rfl) _ _⟩

theorem later_unregister (n : Network) (r : ReporterId) (t : Target) :
    Later n (n.unregister r t) :=
  ⟨Nat.le_refl _, map_modify_of_eq _ _ (fun _ => by rfl) _ _⟩

/-- Who is held by a walk is no part of the measure either, when the walk begins … -/
theorem later_beginCall (n : Network) (r : ReporterId) : Later n (n.beginCall r) :=
  ⟨Nat.le_refl _, map_modify_of_eq _ _ (fun _ => by split <;> rfl) _ _⟩

/-- … and when it ends. -/
theorem later_endCall (n : Network) (r : ReporterId) : Later n (n.endCall r) :=
  ⟨Nat.le_refl _, map_modify_of_eq _ _ (fun _ => by rfl) _ _⟩

/-- The response was taken off the script when the call began, so its end uses up nothing. -/
theorem later_endHearing (n : Network) (l : ListenerId) : Later n (n.endHearing l) := by
  refine ⟨Nat.le_of_eq ?_, rfl⟩
  exact total_modify_of_eq _ _ (fun _ => by rfl) _ _

theorem later_unbind (n : Network) (handle : String) : Later n (n.unbind handle) :=
  ⟨Nat.le_refl _, rfl⟩

/-- Who is let go of keeps script and mark; it is only no longer alive. -/
theorem later_letGo (n : Network) (t : Target) : Later n (n.letGo t) := by
  cases t with
  | listener l => exact ⟨Nat.le_of_eq (total_modify_of_eq _ _ (fun _ => by rfl) _ _), rfl⟩
  | reporter r => exact ⟨Nat.le_refl _, map_modify_of_eq _ _ (fun _ => by rfl) _ _⟩

theorem later_dropListener (n : Network) (handle : String) : Later n (n.dropListener handle) := by
  unfold dropListener
  split
  · exact (later_unbind n handle).trans (later_letGo _ (.listener _))
  · exact .refl n

/-- Letting go by handle: of whom it stands for, or of nobody. -/
theorem later_release (n : Network) (handle : String) : Later n (n.release handle) := by
  unfold release
  split
  · exact (later_unbind n handle).trans (later_letGo _ _)
  · exact .refl n

/-- An edit comes down to one of the small changes above, or to a record that it failed. -/
theorem later_edit (n : Network) (e : Edit) : Later n (n.edit e) := by
  cases e <;> simp only [edit]
  -- a handle that stands for nobody makes the edit fail, and that goes on record
  case add =>
    split
    · exact later_register n _ _
    · exact later_emit n _
  case remove =>
    split
    · exact later_unregister n _ _
    · exact later_emit n _
  case count => split <;> exact later_emit n _
  case drop => exact later_dropListener n _

/-- Hearing an event by script uses up one response of the script. -/
theorem pending_beginHearing_lt {n : Network} {l : ListenerId} {it : Listener} (e : Entry)
    (hl : n.listeners[l]? = some it) (hs : it.script ≠ []) :
    ((n.emit e).beginHearing l).pending < n.pending := by
  refine total_modify_lt (fun l : Listener => l.script.length) _ hl ?_
  cases h : it.script with
  | nil => exact absurd h hs
  | cons => simp

/-- Marking writes one place of the list of marks. -/
theorem marks_mark (n : Network) (r : ReporterId) (b : Bool) :
    (n.mark r b).marks = n.marks.set r b := by
  simp only [marks, mark]
  generalize n.reporters = rs
  induction rs generalizing r with
  | nil => simp
  | cons a l ih => cases r <;> simp [ih]

theorem marks_getElem? {n : Network} {r : ReporterId} {it : Reporter}
    (hr : n.reporters[r]? = some it) : n.marks[r]? = some it.reemitting := by
  simp [marks, hr]

/-- Marking a reporter leaves fewer that are not marked. -/
theorem idle_mark_lt {n : Network} {r : ReporterId} {it : Reporter}
    (hr : n.reporters[r]? = some it) (hm : it.reemitting = false) :
    (n.mark r true).idle < n.idle := by
  have hr' := hm ▸ marks_getElem? hr
  obtain ⟨hlt, hget⟩ := List.getElem?_eq_some_iff.1 hr'
  -- the reporter itself is one that was not marked
  have hpos : 0 < n.marks.count false := List.count_pos_iff.2 (hget ▸ List.getElem_mem hlt)
  rw [idle, marks_mark, List.count_set hlt, hget]
  show n.marks.count false - 1 + 0 < n.marks.count false
  omega

/-- A mark that is set and taken back leaves all marks as they were. -/
theorem later_unmark {n m : Network} {r : ReporterId} {it : Reporter}
    (hr : n.reporters[r]? = some it) (hm : it.reemitting = false)
    (h : Later (n.mark r true) m) : Later n (m.mark r false) := by
  have hr' := hm ▸ marks_getElem? hr
  obtain ⟨hlt, hget⟩ := List.getElem?_eq_some_iff.1 hr'
  refine ⟨h.pending_le, ?_⟩
  -- set and set back at one place, with all other marks as they were
  rw [marks_mark, h.marks_eq, marks_mark, List.set_set, ← hget, List.set_getElem_self]

end Measure

/-! ## The walk -/

/-- A piece of fan-out work. -/
inductive Task where
  /-- A reporter sends a message, or word that the trouble is over. -/
  | announce (reporter : ReporterId) (message : Option String)
  /-- The rest of a walk: who is left to be told by the reporter of that name. -/
  | offer (reporter : String) (event : Event) (targets : List Target)
  /-- A target is told. -/
  | tell (target : Target) (event : Event)
  /-- The rest of what someone does who follows a script. -/
  | perform (deeds : List Deed)

/-- Orders the kinds of work that happen inside one another at the same measure. -/
def Task.rank : Task → Nat
  | .tell .. => 0
  | .offer .. => 1
  | .announce .. => 2
  | .perform _ => 3

/-- How much of a walk or a list of deeds is left. -/
def Task.size : Task → Nat
  | .offer _ _ targets => targets.length
  | .perform deeds => deeds.length
  | _ => 0

/-- The network after a piece of work and everything that follows from it. -/
def work (n : Network) (task : Task) : { m : Network // Later n m } :=
  match task with
  | .announce r message =>
    match n.reporters[r]? with
    | none => ⟨n, .refl n⟩
    | some it =>
      -- `it` is the reporter as it stands now; what happens to its registrations on the way
      -- does not reach this walk
      let n' := (n.beginCall r).note (.delivering it.name it.registrations.length message.isNone)
      have hn := (later_beginCall n r).trans (later_note _ _)
      let ⟨m, h⟩ := n'.work (.offer it.name ⟨it.source, it.name, message⟩ it.registrations)
      ⟨m.endCall r, (hn.trans h).trans (later_endCall m r)⟩
  | .offer _ _ [] => ⟨n, .refl n⟩
  | .offer name e (t :: ts) =>
    -- alive now, at its turn, not when the walk began
    if n.alive t then
      let ⟨m, h⟩ := n.work (.tell t e)
      -- whether it breaks down is a matter of the script as it was when the call began
      have h' := h.trans (later_contain m name (n.crashes t))
      let ⟨k, hk⟩ := (m.contain name (n.crashes t)).work (.offer name e ts)
      ⟨k, h'.trans hk⟩
    else
      n.work (.offer name e ts)
  | .tell (.listener l) e =>
    match hl : n.listeners[l]? with
    | none => ⟨n, .refl n⟩
    | some it =>
      let n' := n.emit (.heard it.handle e)
      match hs : it.script with
      | [] => ⟨n', later_emit n _⟩
      | response :: _ =>
        have hlt := pending_beginHearing_lt (.heard it.handle e) hl (by simp [hs])
        let ⟨m, h⟩ := (n'.beginHearing l).work (.perform response.deeds)
        have h' : Later n m := ⟨Nat.le_trans h.pending_le (Nat.le_of_lt hlt), h.marks_eq⟩
        ⟨m.endHearing l, h'.trans (later_endHearing m l)⟩
  | .tell (.reporter r) e =>
    match hr : n.reporters[r]? with
    | none => ⟨n, .refl n⟩
    | some it =>
      if hm : it.reemitting then
        ⟨n.note (.loopedBack it.name e.sourceName), later_note n _⟩
      else
        have hlt : (n.mark r true).idle < n.idle := idle_mark_lt hr (by simpa using hm)
        let ⟨m, h⟩ := (n.mark r true).work (.announce r e.message)
        ⟨m.mark r false, later_unmark hr (by simpa using hm) h⟩
  | .perform [] => ⟨n, .refl n⟩
  | .perform (.act (.edit e) :: rest) =>
    let ⟨m, h⟩ := (n.edit e).work (.perform rest)
    ⟨m, (later_edit n e).trans h⟩
  | .perform (.release handle :: rest) =>
    let ⟨m, h⟩ := (n.release handle).work (.perform rest)
    ⟨m, (later_release n handle).trans h⟩
  | .perform (.act (.notify handle message) :: rest) =>
    match n.reporter? handle with
    | none =>
      let ⟨m, h⟩ := (n.emit (.failed (.notify handle message))).work (.perform rest)
      ⟨m, (later_emit n _).trans h⟩
    | some r =>
      let ⟨m, h⟩ := n.work (.announce r message)
      let ⟨k, hk⟩ := m.work (.perform rest)
      ⟨k, h.trans hk⟩
termination_by (n.pending, n.idle, task.rank, task.size)
decreasing_by
  · exact hn.descend (.left _ _ (Nat.lt_succ_self _))
  · exact (Later.refl n).descend (.left _ _ (Nat.lt_succ_self _))
  · exact h'.descend (.right _ (Nat.lt_succ_self _))
  · exact (Later.refl n).descend (.right _ (Nat.lt_succ_self _))
  · exact .left _ _ hlt
  · exact .right _ (.left _ _ hlt)
  · exact (later_edit n e).descend (.right _ (Nat.lt_succ_self _))
  · exact (later_release n handle).descend (.right _ (Nat.lt_succ_self _))
  · exact (later_emit n _).descend (.right _ (Nat.lt_succ_self _))
  · exact (Later.refl n).descend (.left _ _ (Nat.lt_succ_self _))
  · exact h.descend (.right _ (Nat.lt_succ_self _))

/-- The network after a piece of work. -/
def after (n : Network) (task : Task) : Network :=
  (n.work task).val

/-- The network after a reporter has sent a message, or word that the trouble is over. -/
def announce (n : Network) (r : ReporterId) (message : Option String) : Network :=
  n.after (.announce r message)

/-- The network after a reporter has been told of an event. -/
def pass (n : Network) (r : ReporterId) (e : Event) : Network :=
  n.after (.tell (.reporter r) e)

end Breadboard.Network
