import Breadboard.Proofs.Network.Machine
import Mathlib.Data.List.Iterate

/-!
# Breadboard — what a machine passes through

Fan-out seen from within: the machines that lie between the start of a piece of work and its end, and
what each of them does next.

* `Machine.touch` — **what a step does to the network**, out of ten things that it can do; what is to be
  shown of every step is shown of these (`step_network`).
* `Visits m ms m'` — from `m`, through the machines `ms`, the machine comes to `m'`.
* `exists_visits` — a piece of work is done on top of the stack that it was put on: until it is over,
  something of it lies there.
* `Machine.Sound` — who is about to be told is alive, and so is who starts to follow a script
  (`Sound.alive_of_begin`).
* `Visits.registrations` — a list of registrations changes where one is added or taken off, and in no
  other way.
* `object?_after` — no handle is bound.
-/

namespace Breadboard.Network

-- ---------------------------------------------------------------------------
-- What a step does to the network
-- ---------------------------------------------------------------------------

/-- What one step can do to a network. -/
inductive Touch where
  | nothing
  | entry (x : Entry)
  | mark (r : ReporterId) (b : Bool)
  /-- A reporter sets out on a walk. -/
  | depart (r : ReporterId) (x : Entry)
  /-- A reporter is back from a walk. -/
  | back (r : ReporterId)
  /-- A listener starts to follow its script. -/
  | begin (l : ListenerId) (x : Entry)
  /-- A listener is done with an event. -/
  | finish (l : ListenerId)
  | register (r : ReporterId) (t : Target)
  | unregister (r : ReporterId) (t : Target)
  /-- A listener or a reporter is let go of. -/
  | drop (handle : String) (t : Target)

/-- The network after a step that does so. -/
def touched (n : Network) : Touch → Network
  | .nothing => n
  | .entry x => n.emit x
  | .mark r b => n.mark r b
  | .depart r x => (n.beginCall r).emit x
  | .back r => n.endCall r
  | .begin l x => (n.emit x).beginHearing l
  | .finish l => n.endHearing l
  | .register r t => n.register r t
  | .unregister r t => n.unregister r t
  | .drop handle t => (n.unbind handle).letGo t

/-- What an edit does to the network, once its handles have been looked up. -/
def editTouch (n : Network) (e : Edit) : Touch :=
  match e with
  | .add r l =>
    match n.reporter? r, n.target? l with
    | some r, some t => .register r t
    | _, _ => .entry (.failed (.edit e))
  | .remove r l =>
    match n.reporter? r, n.target? l with
    | some r, some t => .unregister r t
    | _, _ => .entry (.failed (.edit e))
  | .count r =>
    match n.reporter? r with
    | some id => .entry (.counted r (n.liveCount id))
    | none => .entry (.failed (.edit e))
  | .drop l =>
    match n.object? l with
    | some (.listener id) => .drop l (.listener id)
    | _ => .nothing

/-- An edit is one of these things. -/
theorem edit_eq_touched (n : Network) (e : Edit) : n.edit e = n.touched (n.editTouch e) := by
  cases e with
  | add r l =>
    simp only [edit, editTouch]
    cases n.reporter? r <;> cases n.target? l <;> rfl
  | remove r l =>
    simp only [edit, editTouch]
    cases n.reporter? r <;> cases n.target? l <;> rfl
  | count r =>
    simp only [edit, editTouch]
    cases n.reporter? r <;> rfl
  | drop l =>
    simp only [edit, editTouch, dropListener]
    cases n.object? l with
    | none => rfl
    | some o => cases o <;> rfl

/-- What letting go of what a handle stands for does to the network. -/
def releaseTouch (n : Network) (handle : String) : Touch :=
  match n.target? handle with
  | some t => .drop handle t
  | none => .nothing

/-- So is letting go. -/
theorem release_eq_touched (n : Network) (handle : String) :
    n.release handle = n.touched (n.releaseTouch handle) := by
  simp only [release, releaseTouch]
  cases n.target? handle <;> rfl

/-- What the first step of a piece of work does to the network. -/
def touch (n : Network) : Task → Touch
  | .announce r message =>
    match n.reporters[r]? with
    | none => .nothing
    | some it => .depart r (.noticed (.delivering it.name it.registrations.length message.isNone))
  | .offer .. => .nothing
  | .tell (.listener l) e =>
    match n.listeners[l]? with
    | none => .nothing
    | some it => if it.script = [] then .entry (.heard it.handle e) else .begin l (.heard it.handle e)
  | .tell (.reporter r) e =>
    match n.reporters[r]? with
    | none => .nothing
    | some it =>
      if it.reemitting then .entry (.noticed (.loopedBack it.name e.sourceName)) else .mark r true
  | .perform [] => .nothing
  | .perform (.act (.edit e) :: _) => n.editTouch e
  | .perform (.release handle :: _) => n.releaseTouch handle
  | .perform (.act (.notify handle message) :: _) =>
    if (n.reporter? handle).isNone then .entry (.failed (.notify handle message)) else .nothing

namespace Machine

/-- What the next step does to the network. -/
def touch (m : Machine) : Touch :=
  match m.stack with
  | [] => .nothing
  | .task task :: _ => if m.crashing then .nothing else m.network.touch task
  | .shield name :: _ =>
    if m.crashing then .entry (.noticed (.listenerCrashed name)) else .nothing
  | .walking r :: _ => .back r
  | .hearing l _ :: _ => .finish l
  | .passing r :: _ => .mark r false

/-- What the first step of a piece of work does to the network, whatever lies below it. -/
theorem advance_network (n : Network) (stack : List Frame) (task : Task) :
    (advance n stack (.task task)).network = n.touched (n.touch task) := by
  cases task with
  | announce r message =>
    simp only [advance, Network.touch]
    cases n.reporters[r]? <;> rfl
  | offer name e ts =>
    cases ts with
    | nil => rfl
    | cons t ts =>
      simp only [advance]
      split <;> rfl
  -- a listener follows its script or only hears; a reporter passes on or drops
  | tell t e =>
    cases t with
    | listener l =>
      simp only [advance, Network.touch]
      cases n.listeners[l]? with
      | none => rfl
      | some it => cases h : it.script <;> simp [touched, h]
    | reporter r =>
      simp only [advance, Network.touch]
      cases n.reporters[r]? with
      | none => rfl
      | some it => cases h : it.reemitting <;> simp [touched, note, h]
  | perform deeds =>
    cases deeds with
    | nil => rfl
    | cons deed rest =>
      cases deed with
      | release handle => exact release_eq_touched n handle
      | act action =>
        cases action with
        | edit e => exact edit_eq_touched n e
        | notify handle message =>
          simp only [advance, Network.touch]
          cases n.reporter? handle <;> rfl

/-- **What a step does to the network** is one of ten things. -/
theorem step_network (m : Machine) : m.step.network = m.network.touched m.touch := by
  obtain ⟨n, stack, crashing⟩ := m
  cases stack with
  | nil => rfl
  | cons frame stack =>
    cases crashing with
    -- frames are taken off one by one, until a shield stops that
    | true => cases frame <;> rfl
    | false =>
      cases frame with
      | task task => exact advance_network n stack task
      | _ => rfl

-- ---------------------------------------------------------------------------
-- From machine to machine
-- ---------------------------------------------------------------------------

/-- From one machine, through the machines of a list, to another, one step at a time. -/
inductive Visits : Machine → List Machine → Machine → Prop
  | refl (m : Machine) : Visits m [] m
  | step {m m' : Machine} {ms : List Machine} (h : Visits m.step ms m') : Visits m (m :: ms) m'

/-- From one machine to another, and on from there. -/
theorem Visits.trans {m m' m'' : Machine} {ms ms' : List Machine} (h : Visits m ms m')
    (h' : Visits m' ms' m'') : Visits m (ms ++ ms') m'' := by
  induction h with
  | refl => exact h'
  | step _ ih => exact .step (ih h')

/-- So many steps visit so many machines. -/
theorem visits_iterate (m : Machine) (k : Nat) : Visits m (List.iterate step m k) (step^[k] m) := by
  induction k generalizing m with
  | zero => exact .refl m
  | succ k ih => exact .step (ih m.step)

/-- A machine on top of a stack. -/
def on (m : Machine) (stack : List Frame) : Machine :=
  { m with stack := m.stack ++ stack }

/-- Something lies on top of the stack. -/
def Above (stack : List Frame) (m : Machine) : Prop :=
  ∃ frames, frames ≠ [] ∧ m.stack = frames ++ stack

/-- What lies on top makes the stack longer. -/
theorem Above.length_lt {stack : List Frame} {m : Machine} (h : m.Above stack) :
    stack.length < m.stack.length := by
  obtain ⟨frames, hne, hStack⟩ := h
  have hPos := List.length_pos_iff.mpr hne
  rw [hStack, List.length_append]
  omega

theorem above_nil {m : Machine} : m.Above [] ↔ m.stack.isEmpty = false := by
  simp [Above]

/-- Nothing lies on top of a stack that is all there is. -/
theorem not_above (n : Network) (stack : List Frame) (b : Bool) : ¬ Above stack ⟨n, stack, b⟩ :=
  fun h => Nat.lt_irrefl _ h.length_lt

/-- There is one way to go until nothing lies on top of a stack any more. -/
theorem Visits.unique {stack : List Frame} {m m' m'' : Machine} {ms ms' : List Machine}
    (h : Visits m ms m') (hAbove : ∀ x ∈ ms, x.Above stack) (hEnd : ¬ m'.Above stack)
    (h' : Visits m ms' m'') (hAbove' : ∀ x ∈ ms', x.Above stack) (hEnd' : ¬ m''.Above stack) :
    ms = ms' := by
  -- neither way can end while the other goes on
  induction h generalizing ms' with
  | refl =>
    cases h' with
    | refl => rfl
    | step => exact absurd (hAbove' _ (List.mem_cons_self ..)) hEnd
  | step _ ih =>
    cases h' with
    | refl => exact absurd (hAbove _ (List.mem_cons_self ..)) hEnd'
    | step h' =>
      rw [List.forall_mem_cons] at hAbove hAbove'
      rw [ih hAbove.2 hEnd h' hAbove'.2]

/-- What lies below the topmost frames stays there. -/
theorem advance_append (n : Network) (frames stack : List Frame) (frame : Frame) :
    advance n (frames ++ stack) frame = (advance n frames frame).on stack := by
  cases frame with
  | task task =>
    cases task with
    | announce r message =>
      simp only [advance]
      cases n.reporters[r]? <;> rfl
    | offer name e ts =>
      cases ts with
      | nil => rfl
      | cons t ts =>
        simp only [advance]
        split <;> rfl
    | tell t e =>
      cases t with
      | listener l =>
        simp only [advance]
        cases n.listeners[l]? with
        | none => rfl
        | some it => cases h : it.script <;> simp [on, h]
      | reporter r =>
        simp only [advance]
        cases n.reporters[r]? with
        | none => rfl
        | some it => cases h : it.reemitting <;> simp [on, h]
    | perform deeds =>
      cases deeds with
      | nil => rfl
      | cons deed rest =>
        cases deed with
        | release handle => rfl
        | act action =>
          cases action with
          | edit e => rfl
          | notify handle message =>
            simp only [advance]
            cases n.reporter? handle <;> rfl
  | _ => rfl

/-- A step looks at nothing but the topmost frame. -/
theorem step_on {m : Machine} (h : m.stack ≠ []) (stack : List Frame) :
    (m.on stack).step = m.step.on stack := by
  obtain ⟨n, frames, crashing⟩ := m
  cases frames with
  | nil => exact absurd rfl h
  | cons frame frames =>
    cases crashing with
    | true => cases frame <;> rfl
    | false => exact advance_append n frames stack frame

/-- The same machines are visited on top of any stack. -/
theorem Visits.on {m m' : Machine} {ms : List Machine} (h : Visits m ms m')
    (hne : ∀ x ∈ ms, x.stack ≠ []) (stack : List Frame) :
    Visits (m.on stack) (ms.map (·.on stack)) (m'.on stack) := by
  induction h with
  | refl => exact .refl _
  | @step m m' ms _ ih =>
    rw [List.forall_mem_cons] at hne
    rw [List.map_cons]
    refine .step ?_
    -- as long as it has frames of its own, the machine does not see those below
    rw [step_on hne.1]
    exact ih hne.2

/-- On the way to an empty stack, the stack need not have been empty before. -/
theorem Runs.visits {m m' : Machine} (h : Runs m m') (hEnd : m'.stack = []) :
    ∃ ms, Visits m ms m' ∧ ∀ x ∈ ms, x.stack ≠ [] := by
  obtain ⟨k, rfl⟩ := h
  induction k generalizing m with
  | zero => exact ⟨[], .refl m, by simp⟩
  | succ k ih =>
    by_cases hStack : m.stack = []
    · -- the machine is done, and stays as it is
      have hStep : m.step = m := by simp only [Machine.step, hStack]
      rw [Function.iterate_succ_apply, hStep] at hEnd ⊢
      exact ih hEnd
    · obtain ⟨ms, hVisits, hne⟩ := ih hEnd
      exact ⟨m :: ms, .step hVisits, List.forall_mem_cons.mpr ⟨hStack, hne⟩⟩

end Machine

open Machine

/-- **A piece of work on top of a stack.** It comes to its end, with the network that `Network.after`
gives, and until then something of it lies on the stack. -/
theorem exists_visits (n : Network) (task : Task) (stack : List Frame) :
    ∃ ms, Visits ⟨n, .task task :: stack, false⟩ ms
        ⟨n.after task, stack, n.breaks task⟩ ∧
      ∀ m ∈ ms, m.Above stack := by
  obtain ⟨ms, hVisits, hne⟩ := (runs_task n task []).visits rfl
  refine ⟨ms.map fun m => Machine.on m stack, hVisits.on hne stack, ?_⟩
  rw [List.forall_mem_map]
  intro m hm
  exact ⟨m.stack, hne m hm, rfl⟩

-- ---------------------------------------------------------------------------
-- Who is alive
-- ---------------------------------------------------------------------------

section Alive

/-- A change of one reporter decides whether that one is alive, and nobody else. -/
theorem alive_modifyReporter (f : Reporter → Reporter) (n : Network) (r : ReporterId) (t : Target) :
    ({ n with reporters := n.reporters.modify r f } : Network).alive t =
      if t = .reporter r then n.reporters[r]?.any fun it => (f it).alive else n.alive t := by
  cases t with
  | listener l => simp [alive]
  | reporter s =>
    simp only [alive, List.getElem?_modify, Target.reporter.injEq]
    by_cases hs : r = s
    · subst hs
      cases n.reporters[r]? <;> simp
    · cases n.reporters[s]? <;> simp [hs, Ne.symm hs]

/-- A change of one listener decides whether that one is alive, and nobody else. -/
theorem alive_modifyListener (f : Listener → Listener) (n : Network) (l : ListenerId) (t : Target) :
    ({ n with listeners := n.listeners.modify l f } : Network).alive t =
      if t = .listener l then n.listeners[l]?.any fun it => (f it).alive else n.alive t := by
  cases t with
  | reporter s => simp [alive]
  | listener i =>
    simp only [alive, List.getElem?_modify, Target.listener.injEq]
    by_cases hi : l = i
    · subst hi
      cases n.listeners[l]? <;> simp
    · cases n.listeners[i]? <;> simp [hi, Ne.symm hi]

/-- A change that neither kills a reporter nor brings it back does so to nobody. -/
theorem alive_modifyReporter_of_eq {f : Reporter → Reporter} (hf : ∀ it, (f it).alive = it.alive)
    (n : Network) (r : ReporterId) (t : Target) :
    ({ n with reporters := n.reporters.modify r f } : Network).alive t = n.alive t := by
  rw [alive_modifyReporter]
  split
  next h =>
    subst h
    simp only [alive, hf]
  next => rfl

/-- A mark neither kills nor brings back … -/
theorem alive_mark (n : Network) (r : ReporterId) (b : Bool) (t : Target) :
    (n.mark r b).alive t = n.alive t :=
  alive_modifyReporter_of_eq (fun _ => by rfl) n r t

/-- … nor does a registration … -/
theorem alive_register (n : Network) (r : ReporterId) (u t : Target) :
    (n.register r u).alive t = n.alive t :=
  alive_modifyReporter_of_eq (fun _ => by rfl) n r t

/-- … nor the end of one. -/
theorem alive_unregister (n : Network) (r : ReporterId) (u t : Target) :
    (n.unregister r u).alive t = n.alive t :=
  alive_modifyReporter_of_eq (fun _ => by rfl) n r t

/-- A reporter that sets out on a walk is as much alive as before. -/
theorem alive_beginCall (n : Network) (r : ReporterId) (t : Target) :
    (n.beginCall r).alive t = n.alive t := by
  refine alive_modifyReporter_of_eq (fun it => ?_) n r t
  split
  next h =>
    rw [h]
    simp [Reporter.alive]
  next => rfl

/-- A listener that is alive is so while it hears an event. -/
theorem alive_beginHearing {n : Network} {l : ListenerId} (hl : n.alive (.listener l) = true)
    (t : Target) : (n.beginHearing l).alive t = n.alive t := by
  rw [beginHearing, alive_modifyListener]
  split
  next h =>
    subst h
    rw [hl]
    simp only [alive] at hl
    cases h : n.listeners[l]? with
    | none => simp [h] at hl
    | some it => simp [Listener.alive]
  next => rfl

/-- A change that brings no reporter back to life brings nobody back. -/
theorem alive_of_modifyReporter {f : Reporter → Reporter}
    (hf : ∀ it, (f it).alive = true → it.alive = true) {n : Network} {r : ReporterId} {t : Target}
    (h : ({ n with reporters := n.reporters.modify r f } : Network).alive t = true) :
    n.alive t = true := by
  rw [alive_modifyReporter] at h
  split at h
  next hEq =>
    subst hEq
    simp only [alive]
    cases hr : n.reporters[r]? with
    | none => simp [hr] at h
    | some it =>
      rw [hr, Option.any_some] at h
      exact hf it h
  next => exact h

/-- A change that brings no listener back to life brings nobody back. -/
theorem alive_of_modifyListener {f : Listener → Listener}
    (hf : ∀ it, (f it).alive = true → it.alive = true) {n : Network} {l : ListenerId} {t : Target}
    (h : ({ n with listeners := n.listeners.modify l f } : Network).alive t = true) :
    n.alive t = true := by
  rw [alive_modifyListener] at h
  split at h
  next hEq =>
    subst hEq
    simp only [alive]
    cases hl : n.listeners[l]? with
    | none => simp [hl] at h
    | some it =>
      rw [hl, Option.any_some] at h
      exact hf it h
  next => exact h

/-- When a listener is done with an event, it may die, and no other. -/
theorem alive_endHearing (n : Network) (l : ListenerId) {t : Target}
    (h : (n.endHearing l).alive t = true) : n.alive t = true := by
  refine alive_of_modifyListener (fun it hAlive => ?_) h
  simp only [Listener.alive, Bool.or_eq_true, bne_iff_ne] at hAlive ⊢
  exact hAlive.imp_right fun hPos => by omega

/-- No other target is more or less alive when a listener is done with an event … -/
theorem alive_endHearing_of_ne {n : Network} (l : ListenerId) (u : Target) (h : u ≠ .listener l) :
    (n.endHearing l).alive u = n.alive u := by
  rw [endHearing, alive_modifyListener, if_neg h]

/-- When a reporter is back from a walk, it may die, and no other. -/
theorem alive_endCall (n : Network) (r : ReporterId) {t : Target}
    (h : (n.endCall r).alive t = true) : n.alive t = true := by
  refine alive_of_modifyReporter (fun it hAlive => ?_) h
  simp only [Reporter.alive, Bool.or_eq_true, bne_iff_ne] at hAlive ⊢
  exact hAlive.imp_right fun hPos => by omega

/-- … nor when a reporter is back from a walk … -/
theorem alive_endCall_of_ne {n : Network} (r : ReporterId) (u : Target) (h : u ≠ .reporter r) :
    (n.endCall r).alive u = n.alive u := by
  rw [endCall, alive_modifyReporter, if_neg h]

/-- When a target is let go of, it may die, and no other. -/
theorem alive_letGo (n : Network) (t : Target) {u : Target} (h : (n.letGo t).alive u = true) :
    n.alive u = true := by
  cases t with
  | listener l =>
    refine alive_of_modifyListener (fun it hAlive => ?_) h
    simp only [Listener.alive, Bool.false_or, Bool.or_eq_true] at hAlive ⊢
    exact .inr hAlive
  | reporter r =>
    refine alive_of_modifyReporter (fun it hAlive => ?_) h
    simp only [Reporter.alive, Bool.false_or, Bool.or_eq_true] at hAlive ⊢
    exact .inr hAlive

/-- … nor when a target is let go of. -/
theorem alive_letGo_of_ne {n : Network} {t : Target} (u : Target) (h : u ≠ t) :
    (n.letGo t).alive u = n.alive u := by
  cases t with
  | listener l => rw [letGo, disownListener, alive_modifyListener, if_neg h]
  | reporter r => rw [letGo, disownReporter, alive_modifyReporter, if_neg h]

end Alive

-- ---------------------------------------------------------------------------
-- Sound machines
-- ---------------------------------------------------------------------------

/-- Whether a frame is a target that is about to be told. -/
def Frame.isTell : Frame → Bool
  | .task (.tell ..) => true
  | _ => false

namespace Machine

/-- Who is about to be told is alive; and nobody is about to be told further down the stack. -/
structure Sound (m : Machine) : Prop where
  alive : ∀ t e, m.stack.head? = some (.task (.tell t e)) → m.network.alive t = true
  tail : ∀ frame ∈ m.stack.tail, frame.isTell = false

/-- A machine is sound if nobody at all is about to be told. -/
theorem Sound.of_stack {m : Machine} (h : ∀ frame ∈ m.stack, frame.isTell = false) : m.Sound := by
  refine ⟨fun t e hHead => ?_, fun frame hFrame => h frame (List.mem_of_mem_tail hFrame)⟩
  have hTell := h _ (List.mem_of_mem_head? hHead)
  simp [Frame.isTell] at hTell

/-- An ordinary step leads to a sound machine, if nobody is about to be told further down. -/
theorem sound_advance (n : Network) {stack : List Frame}
    (h : ∀ frame ∈ stack, frame.isTell = false) (frame : Frame) : (advance n stack frame).Sound := by
  cases frame with
  | task task =>
    cases task with
    | announce r message =>
      simp only [advance]
      cases n.reporters[r]? <;> exact .of_stack (by simpa [Frame.isTell] using h)
    | offer name e ts =>
      cases ts with
      | nil => exact .of_stack h
      | cons t ts =>
        simp only [advance]
        split
        next hAlive =>
          -- the one step that puts someone to be told on the stack asks first
          refine ⟨fun t' e' hHead => ?_, by simpa [Frame.isTell] using h⟩
          simp only [List.head?_cons, Option.some.injEq, Frame.task.injEq, Task.tell.injEq] at hHead
          exact hHead.1 ▸ hAlive
        next => exact .of_stack (by simpa [Frame.isTell] using h)
    | tell t e =>
      cases t with
      | listener l =>
        simp only [advance]
        cases n.listeners[l]? with
        | none => exact .of_stack h
        | some it =>
          cases hs : it.script <;> simp only [hs] <;> exact .of_stack (by simpa [Frame.isTell] using h)
      | reporter r =>
        simp only [advance]
        cases n.reporters[r]? with
        | none => exact .of_stack h
        | some it =>
          cases hm : it.reemitting <;> exact .of_stack (by simpa [Frame.isTell, hm] using h)
    | perform deeds =>
      cases deeds with
      | nil => exact .of_stack h
      | cons deed rest =>
        cases deed with
        | release handle => exact .of_stack (by simpa [advance, Frame.isTell] using h)
        | act action =>
          cases action with
          | edit e => exact .of_stack (by simpa [advance, Frame.isTell] using h)
          | notify handle message =>
            simp only [advance]
            cases n.reporter? handle <;> exact .of_stack (by simpa [Frame.isTell] using h)
  | shield name => exact .of_stack h
  | walking r => exact .of_stack h
  | hearing l crashes => exact .of_stack h
  | passing r => exact .of_stack h

/-- **Machines stay sound.** -/
theorem Sound.step {m : Machine} (h : m.Sound) : m.step.Sound := by
  obtain ⟨n, stack, crashing⟩ := m
  cases stack with
  | nil => exact h
  | cons frame stack =>
    cases crashing with
    | true => cases frame <;> exact .of_stack h.tail
    | false => exact sound_advance n h.tail frame

end Machine

/-- No edit starts a script … -/
theorem editTouch_ne_begin (n : Network) (e : Edit) (l : ListenerId) (x : Entry) :
    n.editTouch e ≠ .begin l x := by
  intro h
  unfold editTouch at h
  split at h <;> split at h <;> cases h

/-- … and neither does letting go. -/
theorem releaseTouch_ne_begin (n : Network) (handle : String) (l : ListenerId) (x : Entry) :
    n.releaseTouch handle ≠ .begin l x := by
  intro h
  unfold releaseTouch at h
  split at h <;> cases h

/-- Of all work only that of telling a listener starts a script. -/
theorem eq_tell_of_touch_begin {n : Network} {task : Task} {l : ListenerId} {x : Entry}
    (h : n.touch task = .begin l x) : ∃ e, task = .tell (.listener l) e := by
  cases task with
  | announce r message =>
    simp only [touch] at h
    split at h <;> cases h
  | offer name e ts => cases h
  | tell t e =>
    cases t with
    | listener i =>
      simp only [touch] at h
      split at h
      · cases h
      · split at h <;> cases h
        exact ⟨e, rfl⟩
    | reporter r =>
      simp only [touch] at h
      split at h
      · cases h
      · split at h <;> cases h
  -- deeds edit, let go and send, but call nobody themselves
  | perform deeds =>
    cases deeds with
    | nil => cases h
    | cons deed rest =>
      cases deed with
      | release handle => exact absurd h (releaseTouch_ne_begin n handle l x)
      | act action =>
        cases action with
        | edit e => exact absurd h (editTouch_ne_begin n e l x)
        | notify handle message =>
          simp only [touch] at h
          split at h <;> cases h

namespace Machine

/-- Who starts to follow a script is alive. -/
theorem Sound.alive_of_begin {m : Machine} (h : m.Sound) {l : ListenerId} {x : Entry}
    (hTouch : m.touch = .begin l x) : m.network.alive (.listener l) = true := by
  obtain ⟨n, stack, crashing⟩ := m
  -- only a task at the top can start a script, and it is the telling of a listener
  unfold touch at hTouch
  split at hTouch
  next => cases hTouch
  next task _ hStack =>
    split at hTouch
    next => cases hTouch
    next =>
      obtain ⟨e, rfl⟩ := eq_tell_of_touch_begin hTouch
      exact h.alive _ e (congrArg List.head? hStack)
  next => split at hTouch <;> cases hTouch
  next => cases hTouch
  next => cases hTouch
  next => cases hTouch

end Machine

-- ---------------------------------------------------------------------------
-- Lists of registrations
-- ---------------------------------------------------------------------------

/-- What becomes of the registrations of a reporter where a step does so to the network. -/
def revise (n : Network) (r : ReporterId) (ts : List Target) : Touch → List Target
  | .register s t => if s = r then ts.filter n.alive ++ [t] else ts
  | .unregister s t => if s = r then ts.erase t else ts
  | _ => ts

/-- A change of the registrations of one reporter is seen there only. -/
theorem registrations_modify (f : List Target → List Target) (n : Network) {r : ReporterId}
    (hr : r < n.reporters.length) (s : ReporterId) :
    ({ n with reporters := n.reporters.modify s fun it =>
        { it with registrations := f it.registrations } } : Network).registrations r =
      if s = r then f (n.registrations r) else n.registrations r := by
  simp only [registrations, List.getElem?_modify, List.getElem?_eq_getElem hr]
  by_cases hs : s = r <;> simp [hs]

/-- A change of a reporter that keeps its registrations keeps all. -/
theorem registrations_modify_of_eq {f : Reporter → Reporter}
    (hf : ∀ it, (f it).registrations = it.registrations) (n : Network) (s r : ReporterId) :
    ({ n with reporters := n.reporters.modify s f } : Network).registrations r =
      n.registrations r := by
  simp only [registrations, List.getElem?_modify]
  by_cases hs : s = r <;> cases n.reporters[r]? <;> simp [hs, hf]

theorem registrations_mark (n : Network) (s : ReporterId) (b : Bool) (r : ReporterId) :
    (n.mark s b).registrations r = n.registrations r :=
  registrations_modify_of_eq (fun _ => by rfl) n s r

theorem registrations_beginCall (n : Network) (s r : ReporterId) :
    (n.beginCall s).registrations r = n.registrations r :=
  registrations_modify_of_eq (fun _ => by split <;> rfl) n s r

theorem registrations_endCall (n : Network) (s r : ReporterId) :
    (n.endCall s).registrations r = n.registrations r :=
  registrations_modify_of_eq (fun _ => by rfl) n s r

/-- Letting go takes nobody off a list. -/
theorem registrations_letGo (n : Network) (t : Target) (r : ReporterId) :
    (n.letGo t).registrations r = n.registrations r := by
  cases t with
  | listener l => rfl
  | reporter s => exact registrations_modify_of_eq (fun _ => by rfl) n s r

/-- What becomes of a list of registrations in one step. -/
theorem registrations_touched (n : Network) {r : ReporterId} (hr : r < n.reporters.length)
    (touch : Touch) : (n.touched touch).registrations r = n.revise r (n.registrations r) touch := by
  cases touch with
  | register s t => exact registrations_modify (fun ts => ts.filter n.alive ++ [t]) n hr s
  | unregister s t => exact registrations_modify (fun ts => ts.erase t) n hr s
  | mark s b => exact registrations_mark n s b r
  | depart s x => exact registrations_beginCall n s r
  | back s => exact registrations_endCall n s r
  | drop handle t => exact registrations_letGo (n.unbind handle) t r
  | _ => rfl

theorem length_reporters_letGo (n : Network) (t : Target) :
    (n.letGo t).reporters.length = n.reporters.length := by
  cases t with
  | listener l => rfl
  | reporter s => exact List.length_modify ..

/-- No step makes a reporter or takes one away. -/
theorem length_reporters_touched (n : Network) (touch : Touch) :
    (n.touched touch).reporters.length = n.reporters.length := by
  cases touch with
  | mark r b => exact List.length_modify ..
  | register r t => exact List.length_modify ..
  | unregister r t => exact List.length_modify ..
  | depart r x => exact List.length_modify ..
  | back r => exact List.length_modify ..
  | drop handle t => exact length_reporters_letGo (n.unbind handle) t
  | _ => rfl

namespace Machine

/-- What the next step makes of the registrations of a reporter. -/
def revise (r : ReporterId) (ts : List Target) (m : Machine) : List Target :=
  m.network.revise r ts m.touch

theorem length_reporters_step (m : Machine) :
    m.step.network.reporters.length = m.network.reporters.length := by
  rw [step_network, length_reporters_touched]

/-- **A list of registrations changes where one is added to it or taken off it**, one change after the
other, and in no other way. -/
theorem Visits.registrations {m m' : Machine} {ms : List Machine} (h : Visits m ms m')
    {r : ReporterId} (hr : r < m.network.reporters.length) :
    m'.network.registrations r = ms.foldl (revise r) (m.network.registrations r) := by
  induction h with
  | refl => rfl
  | @step m m' ms _ ih =>
    have hStep : r < m.step.network.reporters.length := by rwa [length_reporters_step]
    rw [ih hStep, List.foldl_cons, step_network, registrations_touched m.network hr]
    rfl

end Machine

-- ---------------------------------------------------------------------------
-- Handles
-- ---------------------------------------------------------------------------

/-- Unbinding a handle binds no other. -/
theorem object?_unbind {n : Network} {handle other : String} {o : Object}
    (h : (n.unbind handle).object? other = some o) : n.object? other = some o := by
  rw [object?, unbind, Std.TreeMap.getElem?_erase] at h
  split at h
  · cases h
  · exact h

/-- No step binds a handle. -/
theorem object?_touched {n : Network} {touch : Touch} {handle : String} {o : Object}
    (h : (n.touched touch).object? handle = some o) : n.object? handle = some o := by
  cases touch with
  | drop other t =>
    have hUnbound : (n.unbind other).object? handle = some o := by cases t <;> exact h
    exact object?_unbind hUnbound
  | _ => exact h

/-- Nor do steps in a row. -/
theorem Machine.Visits.object? {m m' : Machine} {ms : List Machine} (h : Visits m ms m')
    {handle : String} {o : Object} (hEnd : m'.network.object? handle = some o) :
    m.network.object? handle = some o := by
  induction h with
  | refl => exact hEnd
  | step _ ih =>
    have hStep := ih hEnd
    rw [step_network] at hStep
    exact object?_touched hStep

/-- **Fan-out binds no handle**: what a handle stands for afterwards it stood for before. -/
theorem object?_after {n : Network} {task : Task} {handle : String} {o : Object}
    (h : (n.after task).object? handle = some o) : n.object? handle = some o := by
  obtain ⟨ms, hVisits, -⟩ := exists_visits n task []
  exact hVisits.object? h

end Breadboard.Network
