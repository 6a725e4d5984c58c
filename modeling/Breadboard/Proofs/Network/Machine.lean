import Breadboard.Proofs.Network.Induction
import Mathlib.Logic.Function.Iterate

/-!
# Breadboard — fan-out one step at a time

`Network.after` gives the end of a piece of work at once, and is made so that there is one. Here is
fan-out without that promise: a machine with a stack of what is still to be done, which does one
small thing at a time and might, for all that its definition says, go on forever. It also has
breakdowns in full. One that happens in a listener throws away what is on the stack, mark by mark,
walk by walk and hearing by hearing, down to the reporter that made the call.

* `Machine.step` — one step; a machine with an empty stack is done.
* `runs_task` — a piece of work is done after finitely many steps, whatever lies below it on the
  stack, and the network is then the one that `Network.after` gives.
-/

namespace Breadboard.Network

/-- What lies on the stack. -/
inductive Frame where
  /-- A piece of work. -/
  | task (task : Task)
  /-- A call of a target by the reporter of that name: a breakdown goes no further. -/
  | shield (reporter : String)
  /-- A reporter is on a walk over its registrations. -/
  | walking (reporter : ReporterId)
  /-- A listener follows its script, and at the end of that may break down. -/
  | hearing (listener : ListenerId) (crashes : Bool)
  /-- A reporter passes on an event: the mark is taken back at the end. -/
  | passing (reporter : ReporterId)

/-- A network in the middle of fan-out. -/
structure Machine where
  network : Network
  stack : List Frame
  /-- Whether a breakdown is on its way down the stack. -/
  crashing : Bool := false

namespace Machine

/-- The machine that has a piece of work before it. -/
def start (n : Network) (task : Task) : Machine := ⟨n, [.task task], false⟩

/-- The machine that is done, with no breakdown left over. -/
def done (n : Network) : Machine := ⟨n, [], false⟩

/-- One step of the topmost frame, in the ordinary course of things. -/
def advance (n : Network) (stack : List Frame) : Frame → Machine
  | .task (.announce r message) =>
    match n.reporters[r]? with
    | none => ⟨n, stack, false⟩
    | some it =>
      ⟨(n.beginCall r).note (.delivering it.name it.registrations.length message.isNone),
        .task (.offer it.name ⟨it.source, it.name, message⟩ it.registrations) :: .walking r :: stack,
        false⟩
  | .task (.offer _ _ []) => ⟨n, stack, false⟩
  | .task (.offer name e (t :: ts)) =>
    -- the rest of the walk lies below the call, out of reach of a breakdown in it
    if n.alive t then
      ⟨n, .task (.tell t e) :: .shield name :: .task (.offer name e ts) :: stack, false⟩
    else
      ⟨n, .task (.offer name e ts) :: stack, false⟩
  | .task (.tell (.listener l) e) =>
    match n.listeners[l]? with
    | none => ⟨n, stack, false⟩
    | some it =>
      let heard := n.emit (.heard it.handle e)
      match it.script with
      | [] => ⟨heard, stack, it.breaks⟩
      | response :: _ =>
        ⟨heard.beginHearing l, .task (.perform response.deeds) :: .hearing l it.breaks :: stack, false⟩
  | .task (.tell (.reporter r) e) =>
    match n.reporters[r]? with
    | none => ⟨n, stack, false⟩
    | some it =>
      if it.reemitting then ⟨n.note (.loopedBack it.name e.sourceName), stack, false⟩
      else ⟨n.mark r true, .task (.announce r e.message) :: .passing r :: stack, false⟩
  | .task (.perform []) => ⟨n, stack, false⟩
  | .task (.perform (.act (.edit e) :: rest)) => ⟨n.edit e, .task (.perform rest) :: stack, false⟩
  | .task (.perform (.release handle :: rest)) =>
    ⟨n.release handle, .task (.perform rest) :: stack, false⟩
  | .task (.perform (.act (.notify handle message) :: rest)) =>
    match n.reporter? handle with
    | none => ⟨n.emit (.failed (.notify handle message)), .task (.perform rest) :: stack, false⟩
    | some r => ⟨n, .task (.announce r message) :: .task (.perform rest) :: stack, false⟩
  | .shield _ => ⟨n, stack, false⟩
  | .walking r => ⟨n.endCall r, stack, false⟩
  | .hearing l crashes => ⟨n.endHearing l, stack, crashes⟩
  | .passing r => ⟨n.mark r false, stack, false⟩

/-- One step of a breakdown: the topmost frame is left, and only a call stops it. -/
def unwind (n : Network) (stack : List Frame) : Frame → Machine
  | .task _ => ⟨n, stack, true⟩
  | .shield name => ⟨n.note (.listenerCrashed name), stack, false⟩
  | .walking r => ⟨n.endCall r, stack, true⟩
  | .hearing l _ => ⟨n.endHearing l, stack, true⟩
  | .passing r => ⟨n.mark r false, stack, true⟩

/-- One step. -/
def step (m : Machine) : Machine :=
  match m.stack with
  | [] => m
  | frame :: stack =>
    if m.crashing then unwind m.network stack frame else advance m.network stack frame

/-- Some number of steps lead from one machine to the other. -/
def Runs (m m' : Machine) : Prop :=
  ∃ k, step^[k] m = m'

theorem Runs.refl (m : Machine) : Runs m m := ⟨0, rfl⟩

/-- Steps after steps are steps. -/
theorem Runs.trans {m m' m'' : Machine} (h : Runs m m') (h' : Runs m' m'') : Runs m m'' := by
  obtain ⟨k, rfl⟩ := h
  obtain ⟨k', rfl⟩ := h'
  exact ⟨k' + k, Function.iterate_add_apply step k' k m⟩

/-- In the ordinary course of things the topmost frame advances. -/
theorem runs_advance (n : Network) (frame : Frame) (stack : List Frame) :
    Runs ⟨n, frame :: stack, false⟩ (advance n stack frame) := ⟨1, rfl⟩

/-- A call is over, whether or not the target broke down: what is noted is what containment
notes. -/
theorem runs_shield (n : Network) (name : String) (crashed : Bool) (stack : List Frame) :
    Runs ⟨n, .shield name :: stack, crashed⟩ ⟨n.contain name crashed, stack, false⟩ := by
  refine ⟨1, ?_⟩
  cases crashed <;> rfl

end Machine

/-- Whether a piece of work that starts now will end in a breakdown: being told does, of a target that
breaks down. -/
def breaks (n : Network) : Task → Bool
  | .tell t _ => n.crashes t
  | _ => false

open Machine in
/-- **Every piece of work is done in finitely many steps**, and what it leaves is what
`Network.after` gives; what lies below it on the stack has not been touched. -/
theorem runs_task (n : Network) (task : Task) (stack : List Frame) :
    Runs ⟨n, .task task :: stack, false⟩ ⟨n.after task, stack, n.breaks task⟩ := by
  -- quantified over the stack, since every piece of work runs on top of the one it is part of
  induction n, task using fanout_induction generalizing stack with
  | announce n r message ih =>
    refine (runs_advance n _ stack).trans ?_
    rw [after_announce]
    cases hr : n.reporters[r]? with
    | none => simpa [advance, hr, breaks] using Runs.refl _
    | some it =>
      -- the walk, and then the reporter is back from it
      have hWalk := ih it hr (.walking r :: stack)
      have hBack := runs_advance
        (((n.beginCall r).note (.delivering it.name it.registrations.length message.isNone)).after
          (.offer it.name ⟨it.source, it.name, message⟩ it.registrations)) (.walking r) stack
      simpa [advance, hr, breaks] using hWalk.trans hBack
  | offer_nil n name e =>
    refine (runs_advance n _ stack).trans ?_
    rw [after_offer_nil]
    exact Runs.refl _
  | offer_cons n name e t ts ihTell ihRest ihSkip =>
    refine (runs_advance n _ stack).trans ?_
    rw [after_offer_cons]
    cases hAlive : n.alive t with
    | false => simpa [advance, hAlive, breaks] using ihSkip hAlive stack
    | true =>
      -- the call, its containment, and the rest of the walk, each on top of what comes after it
      have hTell := ihTell hAlive (.shield name :: .task (.offer name e ts) :: stack)
      have hShield := runs_shield (n.after (.tell t e)) name (n.crashes t)
        (.task (.offer name e ts) :: stack)
      have hRest := ihRest hAlive stack
      simpa [advance, hAlive, breaks] using (hTell.trans hShield).trans hRest
  | tell_listener n l e ih =>
    refine (runs_advance n _ stack).trans ?_
    rw [after_tell_listener]
    cases hl : n.listeners[l]? with
    | none => simpa [advance, hl, breaks, crashes] using Runs.refl _
    | some it =>
      cases hs : it.script with
      | nil => simpa [advance, hl, hs, breaks, crashes] using Runs.refl _
      | cons response rest =>
        -- the response, and then the listener is let go again
        have hPerform := ih it response rest hl hs (.hearing l it.breaks :: stack)
        have hEnd := runs_advance
          (((n.emit (.heard it.handle e)).beginHearing l).after (.perform response.deeds))
          (.hearing l it.breaks) stack
        simpa [advance, hl, hs, breaks, crashes] using hPerform.trans hEnd
  | tell_reporter n r e ih =>
    refine (runs_advance n _ stack).trans ?_
    rw [after_tell_reporter]
    cases hr : n.reporters[r]? with
    | none => simpa [advance, hr, breaks, crashes] using Runs.refl _
    | some it =>
      cases hm : it.reemitting with
      | true => simpa [advance, hr, hm, breaks, crashes] using Runs.refl _
      | false =>
        -- the mark stays while the event is passed on, and is taken back after that
        have hPass := ih it hr hm (.passing r :: stack)
        have hEnd := runs_advance ((n.mark r true).after (.announce r e.message)) (.passing r) stack
        simpa [advance, hr, hm, breaks, crashes] using hPass.trans hEnd
  | perform_nil n =>
    refine (runs_advance n _ stack).trans ?_
    rw [after_perform_nil]
    exact Runs.refl _
  | perform_edit n e rest ih =>
    refine (runs_advance n _ stack).trans ?_
    rw [after_perform_edit]
    exact ih stack
  | perform_release n handle rest ih =>
    refine (runs_advance n _ stack).trans ?_
    rw [after_perform_release]
    exact ih stack
  | perform_notify n handle message rest ihFail ihSend ihRest =>
    refine (runs_advance n _ stack).trans ?_
    rw [after_perform_notify]
    cases hr : n.reporter? handle with
    | none => simpa [advance, hr, breaks] using ihFail hr stack
    | some r =>
      have hSend := ihSend r hr (.task (.perform rest) :: stack)
      have hRest := ihRest r hr stack
      simpa [advance, hr, breaks] using hSend.trans hRest

end Breadboard.Network
