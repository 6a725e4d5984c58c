import Breadboard.Network.Rules

/-!
# Breadboard — induction over fan-out

Whatever is to be shown of all fan-out work can be shown rule by rule: of a piece of work, under the
assumption that it holds of the pieces that this one consists of, each on the network that it starts
from (`fanout_induction`). The measure that makes this sound is that of `Network.work`, and it is not
met again.
-/

namespace Breadboard.Network

/-- **Induction over fan-out**, one case for each rule of `Network.after`. -/
@[elab_as_elim]
theorem fanout_induction {motive : Network → Task → Prop}
    (announce : ∀ (n : Network) (r : ReporterId) (message : Option String),
      (∀ it, n.reporters[r]? = some it →
        motive ((n.beginCall r).note (.delivering it.name it.registrations.length message.isNone))
          (.offer it.name ⟨it.source, it.name, message⟩ it.registrations)) →
      motive n (.announce r message))
    (offer_nil : ∀ (n : Network) (name : String) (e : Event), motive n (.offer name e []))
    (offer_cons : ∀ (n : Network) (name : String) (e : Event) (t : Target) (ts : List Target),
      (n.alive t = true → motive n (.tell t e)) →
      (n.alive t = true →
        motive ((n.after (.tell t e)).contain name (n.crashes t)) (.offer name e ts)) →
      (n.alive t = false → motive n (.offer name e ts)) →
      motive n (.offer name e (t :: ts)))
    (tell_listener : ∀ (n : Network) (l : ListenerId) (e : Event),
      (∀ it response rest, n.listeners[l]? = some it → it.script = response :: rest →
        motive ((n.emit (.heard it.handle e)).beginHearing l) (.perform response.deeds)) →
      motive n (.tell (.listener l) e))
    (tell_reporter : ∀ (n : Network) (r : ReporterId) (e : Event),
      (∀ it, n.reporters[r]? = some it → it.reemitting = false →
        motive (n.mark r true) (.announce r e.message)) →
      motive n (.tell (.reporter r) e))
    (perform_nil : ∀ n : Network, motive n (.perform []))
    (perform_edit : ∀ (n : Network) (e : Edit) (rest : List Deed),
      motive (n.edit e) (.perform rest) → motive n (.perform (.act (.edit e) :: rest)))
    (perform_release : ∀ (n : Network) (handle : String) (rest : List Deed),
      motive (n.release handle) (.perform rest) → motive n (.perform (.release handle :: rest)))
    (perform_notify : ∀ (n : Network) (handle : String) (message : Option String)
      (rest : List Deed),
      (n.reporter? handle = none →
        motive (n.emit (.failed (.notify handle message))) (.perform rest)) →
      (∀ r, n.reporter? handle = some r → motive n (.announce r message)) →
      (∀ r, n.reporter? handle = some r →
        motive (n.after (.announce r message)) (.perform rest)) →
      motive n (.perform (.act (.notify handle message) :: rest)))
    (n : Network) (task : Task) : motive n task :=
  -- every piece of work, on the network it starts from, is smaller than the one it is part of
  have smaller : ∀ (m : Network) (work : Task),
      Prod.Lex (· < ·) (Prod.Lex (· < ·) (Prod.Lex (· < ·) (· < ·)))
        (m.pending, m.idle, work.rank, work.size) (n.pending, n.idle, task.rank, task.size) →
      motive m work := fun m work _ =>
    fanout_induction announce offer_nil offer_cons tell_listener tell_reporter perform_nil
      perform_edit perform_release perform_notify m work
  match task with
  | .announce r message => announce n r message fun _ _ =>
    smaller _ _ (((later_beginCall n r).trans (later_note _ _)).descend
      (.left _ _ (Nat.lt_succ_self _)))
  | .offer name e [] => offer_nil n name e
  | .offer name e (t :: ts) => offer_cons n name e t ts
    (fun _ => smaller _ _ ((Later.refl n).descend (.left _ _ (Nat.lt_succ_self _))))
    (fun _ => smaller _ _ (((n.later_after _).trans (later_contain _ name _)).descend
      (.right _ (Nat.lt_succ_self _))))
    (fun _ => smaller _ _ ((Later.refl n).descend (.right _ (Nat.lt_succ_self _))))
  | .tell (.listener l) e => tell_listener n l e fun it response rest hl hs =>
    smaller _ _ (.left _ _ (pending_beginHearing_lt _ hl (by simp [hs])))
  | .tell (.reporter r) e => tell_reporter n r e fun it hr hm =>
    smaller _ _ (.right _ (.left _ _ (idle_mark_lt hr hm)))
  | .perform [] => perform_nil n
  | .perform (.act (.edit e) :: rest) => perform_edit n e rest
    (smaller _ _ ((later_edit n e).descend (.right _ (Nat.lt_succ_self _))))
  | .perform (.release handle :: rest) => perform_release n handle rest
    (smaller _ _ ((later_release n handle).descend (.right _ (Nat.lt_succ_self _))))
  | .perform (.act (.notify handle message) :: rest) => perform_notify n handle message rest
    (fun _ => smaller _ _ ((later_emit n _).descend (.right _ (Nat.lt_succ_self _))))
    (fun _ _ => smaller _ _ ((Later.refl n).descend (.left _ _ (Nat.lt_succ_self _))))
    (fun _ _ => smaller _ _ ((n.later_after _).descend (.right _ (Nat.lt_succ_self _))))
termination_by (n.pending, n.idle, task.rank, task.size)
decreasing_by assumption

end Breadboard.Network
