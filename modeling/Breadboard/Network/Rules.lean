import Breadboard.Network.Fanout

/-!
# Breadboard — the rules of fan-out

`Network.after` is defined by recursion on a measure and hands evidence along. Here are its
equations without the evidence, one for each kind of work:

* `after_announce` — sending is a walk over the registrations as they stand;
* `after_offer_nil`, `after_offer_cons` — the walk looks at one registration at a time;
* `after_tell_listener` — a listener records the event and does what its script says next;
* `after_tell_reporter` — a reporter passes the event on unless it is doing so already;
* `after_perform_nil`, `after_perform_edit`, `after_perform_release`, `after_perform_notify` —
  deeds happen in order.

With `later_after`: whatever the work, scripts are only used up and all marks are as before.
-/

namespace Breadboard.Network

/-- Fan-out uses scripts up and leaves the marks as they were. -/
theorem later_after (n : Network) (task : Task) : Later n (n.after task) :=
  (n.work task).property

/-- A reporter is marked after a piece of work exactly if it was before. -/
theorem marks_after (n : Network) (task : Task) : (n.after task).marks = n.marks :=
  (n.later_after task).marks_eq

/-- Sending walks over the registrations as they stand, and holds the reporter meanwhile. -/
theorem after_announce (n : Network) (r : ReporterId) (message : Option String) :
    n.after (.announce r message) =
      match n.reporters[r]? with
      | none => n
      | some it =>
        (((n.beginCall r).note
          (.delivering it.name it.registrations.length message.isNone)).after
            (.offer it.name ⟨it.source, it.name, message⟩ it.registrations)).endCall r := by
  rw [after, work]
  cases h : n.reporters[r]? <;> rfl

theorem after_offer_nil (n : Network) (name : String) (e : Event) :
    n.after (.offer name e []) = n := by
  rw [after, work]

/-- The one whose turn it is gets called if it is alive, and whether it breaks down was settled before
the call. -/
theorem after_offer_cons (n : Network) (name : String) (e : Event) (t : Target)
    (ts : List Target) :
    n.after (.offer name e (t :: ts)) =
      if n.alive t then
        ((n.after (.tell t e)).contain name (n.crashes t)).after (.offer name e ts)
      else
        n.after (.offer name e ts) := by
  rw [after, work]
  split <;> rfl

/-- A listener puts the event on record and follows the next response of its script, if one is left. -/
theorem after_tell_listener (n : Network) (l : ListenerId) (e : Event) :
    n.after (.tell (.listener l) e) =
      match n.listeners[l]? with
      | none => n
      | some it =>
        let heard := n.emit (.heard it.handle e)
        match it.script with
        | [] => heard
        | response :: _ =>
          ((heard.beginHearing l).after (.perform response.deeds)).endHearing l := by
  rw [after, work]
  split
  next h => simp only [h]
  next it h =>
    simp only [h]
    -- both sides look at the same script
    split
    next hs => simp only [hs]
    next hs => simp only [hs, after]

/-- A reporter passes the event on under its own mark, or drops it if it is marked already. -/
theorem after_tell_reporter (n : Network) (r : ReporterId) (e : Event) :
    n.after (.tell (.reporter r) e) =
      match n.reporters[r]? with
      | none => n
      | some it =>
        if it.reemitting then n.note (.loopedBack it.name e.sourceName)
        else ((n.mark r true).after (.announce r e.message)).mark r false := by
  rw [after, work]
  split
  next h => simp only [h]
  next it h =>
    simp only [h]
    -- marked or not, the evidence is all that is dropped
    split <;> rfl

theorem after_perform_nil (n : Network) : n.after (.perform []) = n := by
  rw [after, work]

theorem after_perform_edit (n : Network) (e : Edit) (rest : List Deed) :
    n.after (.perform (.act (.edit e) :: rest)) = (n.edit e).after (.perform rest) := by
  rw [after, work]
  rfl

theorem after_perform_release (n : Network) (handle : String) (rest : List Deed) :
    n.after (.perform (.release handle :: rest)) = (n.release handle).after (.perform rest) := by
  rw [after, work]
  rfl

/-- Sending that a script asks for happens in full before the next deed. -/
theorem after_perform_notify (n : Network) (handle : String) (message : Option String)
    (rest : List Deed) :
    n.after (.perform (.act (.notify handle message) :: rest)) =
      match n.reporter? handle with
      | none => (n.emit (.failed (.notify handle message))).after (.perform rest)
      | some r => (n.after (.announce r message)).after (.perform rest) := by
  rw [after, work]
  cases h : n.reporter? handle <;> rfl

end Breadboard.Network
