import Breadboard.Proofs.Network.Delivery
import Breadboard.Proofs.Network.Passive

/-!
# Breadboard — the list of live registrations

A reporter keeps the dead among its registrations until another one is added, passes over them when it
sends, and leaves them out when it counts. Nobody can tell: to those who use it, a reporter keeps the
list of the live ones (`live`), to which somebody is added at the end, from which the oldest
registration of somebody is taken, and from which somebody who is let go of disappears altogether
(`Change`).

* `Sound.live_step` — what a step does to the list of the live ones, as changes of it; so for a `History`,
  in which clients add, take back, let go and send, and listeners do so too while an event is on its
  way.
* `live_list_refinement` — **at every moment of every history** the list, the count and whom a
  notification reaches are those of the list that the changes make.
-/

namespace Breadboard.Network

open Machine

/-- The registrations of a reporter that are alive. -/
def live (n : Network) (r : ReporterId) : List Target :=
  (n.registrations r).filter n.alive

/-- What is counted is the length of that list. -/
theorem liveCount_eq_length (n : Network) (r : ReporterId) : n.liveCount r = (n.live r).length :=
  List.countP_eq_length_filter

-- ---------------------------------------------------------------------------
-- Changes of the ideal list
-- ---------------------------------------------------------------------------

/-- What can happen to a list of live registrations. -/
inductive Change where
  | add (t : Target)
  | remove (t : Target)
  /-- The last owner of a target lets go of it. -/
  | release (t : Target)
deriving DecidableEq

/-- A list without dead entries: what is added comes last, the first one is removed if there is one, and
who is let go of has no registration left. -/
def Change.apply (ts : List Target) : Change → List Target
  | .add t => ts ++ [t]
  | .remove t => ts.erase t
  | .release t => ts.filter (· ≠ t)

/-- The target is let go of, unless it is still alive in the network after. -/
def released (n : Network) (t : Target) : List Change :=
  if n.alive t then [] else [.release t]

/-- What it is for the list of a reporter that a step does so to the network. A listener that hears an
event is held by its caller for as long, and so is a reporter that is on a walk. -/
def changes (n : Network) (r : ReporterId) : Touch → List Change
  | .register s t => if s = r ∧ n.alive t = true then [.add t] else []
  | .unregister s t => if s = r then [.remove t] else []
  | .drop _ t => (n.letGo t).released t
  | .back s => (n.endCall s).released (.reporter s)
  | .finish l => (n.endHearing l).released (.listener l)
  | _ => []

section Live

variable {n n' : Network} {r : ReporterId} {t : Target}

/-- With the same registrations and the same targets alive, the list is the same. -/
theorem live_congr (hList : n'.registrations r = n.registrations r)
    (hAlive : ∀ u, n'.alive u = n.alive u) : n'.live r = n.live r := by
  rw [live, live, hList]
  exact List.filter_congr fun u _ => hAlive u

/-- Where at most one target dies, it alone may disappear from the list. -/
theorem live_of_others (hList : n'.registrations r = n.registrations r)
    (hOthers : ∀ u, u ≠ t → n'.alive u = n.alive u) (hDies : n'.alive t = true → n.alive t = true) :
    n'.live r = (n'.released t).foldl Change.apply (n.live r) := by
  unfold released
  split
  -- nobody has died after all
  next hAlive =>
    refine live_congr hList fun u => ?_
    by_cases hu : u = t
    · rw [hu, hAlive, hDies hAlive]
    · exact hOthers u hu
  -- the one that has died is no longer on the list, and all others are as alive as before
  next hDead =>
    simp only [live, hList, List.foldl_cons, List.foldl_nil, Change.apply, List.filter_filter]
    refine List.filter_congr fun u _ => ?_
    by_cases hu : u = t
    · simp [hu, hDead]
    · simp [hu, hOthers u hu]

/-- A registration of a live target comes last on the list of the live; one of a dead target is not seen
there. -/
theorem live_register (hr : r < n.reporters.length) (s : ReporterId) (t : Target) :
    (n.register s t).live r =
      (if s = r ∧ n.alive t = true then [Change.add t] else []).foldl Change.apply (n.live r) := by
  have hAlive : (n.register s t).alive = n.alive := funext (alive_register n s t)
  have hList := registrations_touched n hr (.register s t)
  rw [touched, Network.revise] at hList
  rw [live, hAlive, hList]
  by_cases hs : s = r
  · cases ht : n.alive t <;> simp [hs, ht, live, Change.apply]
  · simp [hs, live]

/-- Taking the oldest registration off the list takes the oldest one off the list of the live, whatever
dead ones lie between. -/
theorem live_unregister (hr : r < n.reporters.length) (s : ReporterId) (t : Target) :
    (n.unregister s t).live r =
      (if s = r then [Change.remove t] else []).foldl Change.apply (n.live r) := by
  have hAlive : (n.unregister s t).alive = n.alive := funext (alive_unregister n s t)
  have hList := registrations_touched n hr (.unregister s t)
  rw [touched, Network.revise] at hList
  rw [live, hAlive, hList]
  by_cases hs : s = r
  · simp [hs, live, Change.apply, List.erase_filter]
  · simp [hs, live]

/-- Where at most one target dies, it does so by being let go of. -/
theorem alive_iff_of_others (hOthers : ∀ u, u ≠ t → n'.alive u = n.alive u)
    (hDies : n'.alive t = true → n.alive t = true) (u : Target) :
    n'.alive u = true ↔
      n.alive u = true ∧ Change.release u ∉ n'.released t := by
  unfold released
  -- of the target itself the list of changes tells, and of the others that nothing has happened to them
  by_cases hu : u = t
  · subst hu
    cases hAlive : n'.alive u
    · simp
    · simp [hDies hAlive]
  · rw [hOthers u hu]
    split <;> simp [hu]

end Live

-- ---------------------------------------------------------------------------
-- One step
-- ---------------------------------------------------------------------------

/-- What a step does to the list of the live ones. -/
theorem live_touched {n : Network} {r : ReporterId} (hr : r < n.reporters.length) {touch : Touch}
    (hBegin : ∀ l x, touch = .begin l x → n.alive (.listener l) = true) :
    (n.touched touch).live r = (n.changes r touch).foldl Change.apply (n.live r) := by
  cases touch with
  | nothing => rfl
  | entry x => rfl
  | mark s b => exact live_congr (registrations_mark n s b r) (alive_mark n s b)
  | depart s x => exact live_congr (registrations_beginCall n s r) (alive_beginCall n s)
  | back s =>
    exact live_of_others (registrations_endCall n s r) (alive_endCall_of_ne s) (alive_endCall n s)
  | begin l x => exact live_congr rfl (alive_beginHearing (n := n.emit x) (hBegin l x rfl))
  | finish l => exact live_of_others rfl (alive_endHearing_of_ne l) (alive_endHearing n l)
  | register s t => exact live_register hr s t
  | unregister s t => exact live_unregister hr s t
  | drop handle t =>
    -- that the handle is unbound too changes no list
    have hDrop : (n.letGo t).live r = ((n.letGo t).released t).foldl Change.apply (n.live r) :=
      live_of_others (registrations_letGo n t r) alive_letGo_of_ne (alive_letGo n t)
    cases t <;> exact hDrop

/-- Who is alive after a step was so before, and has not been let go of. -/
theorem alive_touched_iff {n : Network} {touch : Touch}
    (hBegin : ∀ l x, touch = .begin l x → n.alive (.listener l) = true) (r : ReporterId) (t : Target) :
    (n.touched touch).alive t = true ↔ n.alive t = true ∧ Change.release t ∉ n.changes r touch := by
  cases touch with
  | nothing => simp [touched, changes]
  | entry x => simp [touched, changes, emit, alive]
  | mark s b => simp [touched, changes, alive_mark]
  | depart s x =>
    have hSame : ((n.beginCall s).emit x).alive t = n.alive t := alive_beginCall n s t
    rw [touched, hSame]
    simp [changes]
  | back s => exact alive_iff_of_others (alive_endCall_of_ne s) (alive_endCall n s) t
  | begin l x =>
    have hSame := alive_beginHearing (n := n.emit x) (hBegin l x rfl) t
    rw [touched, hSame]
    simp [changes, emit, alive]
  | finish l => exact alive_iff_of_others (alive_endHearing_of_ne l) (alive_endHearing n l) t
  | register s u =>
    rw [touched, alive_register, changes]
    split <;> simp
  | unregister s u =>
    rw [touched, alive_unregister, changes]
    split <;> simp
  | drop handle u =>
    have hDrop := alive_iff_of_others (n := n) (t := u) alive_letGo_of_ne (alive_letGo n u) t
    cases u <;> exact hDrop

namespace Machine

/-- What the next step is for the list of a reporter. -/
def changes (r : ReporterId) (m : Machine) : List Change :=
  m.network.changes r m.touch

/-- The list of the live changes as the next step says. -/
theorem Sound.live_step {m : Machine} (h : m.Sound) {r : ReporterId}
    (hr : r < m.network.reporters.length) :
    m.step.network.live r = (m.changes r).foldl Change.apply (m.network.live r) := by
  rw [step_network]
  exact live_touched hr fun _ _ => h.alive_of_begin

/-- Nobody dies in a step but by being let go of, and nobody comes back. -/
theorem Sound.alive_step {m : Machine} (h : m.Sound) (r : ReporterId) (t : Target) :
    m.step.network.alive t = true ↔ m.network.alive t = true ∧ Change.release t ∉ m.changes r := by
  rw [step_network]
  exact alive_touched_iff (fun _ _ => h.alive_of_begin) r t

/-- Who is alive at some point of the way was so at its start, and has not been let go of since. -/
theorem Visits.alive_iff {m m' x : Machine} {ms pre post : List Machine} (h : Visits m ms m')
    (hSound : m.Sound) (hSplit : ms = pre ++ x :: post) (r : ReporterId) (t : Target) :
    x.network.alive t = true ↔
      m.network.alive t = true ∧ Change.release t ∉ pre.flatMap (Machine.changes r) := by
  induction h generalizing pre with
  | refl => simp at hSplit
  | @step m m' ms _ ih =>
    -- the point is the first machine, or lies on the way from the next one
    cases pre with
    | nil =>
      cases hSplit
      simp
    | cons m₀ pre =>
      cases hSplit
      rw [ih hSound.step rfl, hSound.alive_step r t, List.flatMap_cons, List.mem_append, not_or, and_assoc]

end Machine

-- ---------------------------------------------------------------------------
-- Histories
-- ---------------------------------------------------------------------------

/-- What can happen from a network on, and the changes of the list of one reporter on the way. Between
notifications clients may do what they like with the list; a notification of any reporter then takes its
course, and so does what listeners do meanwhile. -/
inductive History (r : ReporterId) (n : Network) : List Change → Machine → Prop
  | start : History r n [] (done n)
  | step {cs : List Change} {m : Machine} (h : History r n cs m) :
    History r n (cs ++ m.changes r) m.step
  | add {cs : List Change} {m : Network} (h : History r n cs (done m)) {t : Target}
    (hAlive : m.alive t = true) : History r n (cs ++ [.add t]) (done (m.register r t))
  | remove {cs : List Change} {m : Network} (h : History r n cs (done m)) (t : Target) :
    History r n (cs ++ [.remove t]) (done (m.unregister r t))
  | release {cs : List Change} {m : Network} (h : History r n cs (done m)) {t : Target}
    (hLast : (m.letGo t).alive t = false) : History r n (cs ++ [.release t]) (done (m.letGo t))
  | notify {cs : List Change} {m : Network} (h : History r n cs (done m)) (s : ReporterId)
    (message : Option String) : History r n cs (start m (.announce s message))

theorem sound_done (n : Network) : (done n).Sound :=
  .of_stack (by simp [done])

/-- **What is kept along a history**: who is told is alive, the reporter is there, and the list of its
live registrations is what the changes have made of it. -/
structure History.Kept (r : ReporterId) (n : Network) (cs : List Change) (m : Machine) : Prop where
  sound : m.Sound
  reporter : r < m.network.reporters.length
  live : m.network.live r = cs.foldl Change.apply (n.live r)

/-- Every history keeps it. -/
theorem History.kept {r : ReporterId} {n : Network} {cs : List Change} {m : Machine}
    (h : History r n cs m) (hr : r < n.reporters.length) : History.Kept r n cs m := by
  -- each event adds to the changes what it does to the list of the live ones
  induction h with
  | start => exact ⟨sound_done n, hr, rfl⟩
  | @step cs m _ ih =>
    refine ⟨ih.sound.step, by rw [length_reporters_step]; exact ih.reporter, ?_⟩
    rw [ih.sound.live_step ih.reporter, ih.live, List.foldl_append]
  | @add cs m _ t hAlive ih =>
    refine ⟨sound_done _, by rw [done, register, List.length_modify]; exact ih.reporter, ?_⟩
    have hLive := live_register ih.reporter r t
    rw [if_pos ⟨rfl, hAlive⟩] at hLive
    rw [List.foldl_append, ← ih.live]
    exact hLive
  | @remove cs m _ t ih =>
    refine ⟨sound_done _, by rw [done, unregister, List.length_modify]; exact ih.reporter, ?_⟩
    have hLive := live_unregister ih.reporter r t
    rw [if_pos rfl] at hLive
    rw [List.foldl_append, ← ih.live]
    exact hLive
  | @release cs m _ t hLast ih =>
    refine ⟨sound_done _, by rw [done, length_reporters_letGo]; exact ih.reporter, ?_⟩
    -- it was the last owner, so the target is dead now
    have hLive := live_of_others (registrations_letGo m t r) (fun u hu => alive_letGo_of_ne u hu)
      (fun hAlive => by simp [hLast] at hAlive)
    rw [released, if_neg (by simp [hLast])] at hLive
    rw [List.foldl_append, ← ih.live]
    exact hLive
  | notify _ s message ih =>
    exact ⟨.of_stack (by simp [Machine.start, Frame.isTell]), ih.reporter, ih.live⟩

-- ---------------------------------------------------------------------------
-- Whom a notification reaches
-- ---------------------------------------------------------------------------

/-- A machine at which somebody has its turn stands as the turn says. -/
theorem network_of_turn {x : Machine} {depth : Nat} {c : Turn} (h : x.moment? depth = some (.turn c)) :
    c.network = x.network := by
  unfold moment? at h
  split at h
  next =>
    split at h
    · cases h
      rfl
    · cases h
  next => split at h <;> cases h
  next => split at h <;> cases h
  next => cases h

/-- The turns of a walk are seen in their order. -/
theorem sublist_moments (turns : List Turn) :
    (turns.map Moment.turn).Sublist (turns.flatMap Turn.moments) := by
  induction turns with
  | nil => exact .slnil
  | cons c turns ih =>
    have hFirst : [Moment.turn c].Sublist c.moments := by
      unfold Turn.moments
      split <;> simp
    exact hFirst.append ih

/-- In every network some reporters are busy, be it none. -/
theorem exists_marksAre (n : Network) : ∃ busy, n.MarksAre busy := by
  refine ⟨(List.range n.reporters.length).filter fun r => n.reporters[r]?.any Reporter.reemitting,
    fun r => ?_⟩
  rw [List.mem_filter, List.mem_range, Option.any_eq_true]
  constructor
  · rintro ⟨it, hr, hm⟩
    exact ⟨(List.getElem?_eq_some_iff.mp hr).1, it, hr, hm⟩
  · rintro ⟨-, it, hr, hm⟩
    exact ⟨it, hr, hm⟩

/-- In a passive network a turn leaves nothing behind but what has been said. -/
theorem exists_left_eq_said {n : Network} (hPassive : n.Passive) (c : Turn) {new : List Entry}
    (hc : c.network = n.said new) (name : String) : ∃ new', c.left name = n.said new' := by
  unfold Turn.left
  split
  · -- a call, and its end; whichever reporters are busy at the turn
    obtain ⟨busy, hMarks⟩ := exists_marksAre c.network
    have hAlike : Alike n c.network := hc ▸ (Alike.refl n).said new
    have hTold := yieldsDue n hPassive c.network (.tell c.target c.event) busy hAlike hMarks
    obtain ⟨new', hLeft, -⟩ := Yields.contain hTold name (c.network.crashes c.target)
    exact ⟨new ++ new', hLeft.trans (by rw [hc, said_said])⟩
  · exact ⟨new, hc⟩

/-- What every turn keeps is so at each turn of a walk. -/
theorem forall_turn_of_chain {P : Network → Prop} {name : String}
    (hLeft : ∀ c : Turn, P c.network → P (c.left name)) {n n' : Network} {turns : List Turn}
    (hChain : n :: turns.map (Turn.left name) = turns.map Turn.network ++ [n']) (hn : P n) :
    ∀ c ∈ turns, P c.network := by
  induction turns generalizing n with
  | nil => simp
  | cons c turns ih =>
    rw [List.map_cons, List.map_cons, List.cons_append, List.cons.injEq] at hChain
    obtain ⟨rfl, hRest⟩ := hChain
    exact List.forall_mem_cons.mpr ⟨hn, ih hRest (hLeft c hn)⟩

/-- In a passive network everybody is as much alive at its turn as at the start. -/
theorem Walks.alive_of_passive {n : Network} {name : String} {e : Event} {ts : List Target}
    {stack : List Frame} {ms : List Machine} {turns : List Turn}
    (h : Walks n name e ts stack ms turns) (hPassive : n.Passive) :
    ∀ c ∈ turns, c.alive = n.alive c.target := by
  intro c hc
  obtain ⟨new, hSaid⟩ := forall_turn_of_chain (P := fun m => ∃ new, m = n.said new)
    (fun c ⟨_, hc⟩ => exists_left_eq_said hPassive c hc name) h.chain ⟨[], (said_nil n).symm⟩ c hc
  rw [Turn.alive, hSaid]
  exact ((Alike.refl n).said new).alive_eq c.target

section Delivers

variable {k : Network} {r : ReporterId} {it : Reporter} {message : Option String} {stack : List Frame}
  {walk ms : List Machine} {turns : List Turn} {last : Network}

/-- In a passive network everybody is as much alive at its turn as when the delivery began. -/
theorem Delivers.alive_of_passive (h : Delivers k r it message stack walk ms turns last)
    (hPassive : k.Passive) : ∀ c ∈ turns, c.alive = k.alive c.target := by
  intro c hc
  rw [h.walks.alive_of_passive hPassive c hc]
  exact alive_beginCall k r c.target

/-- Who is alive at its turn was so when the delivery began. -/
theorem Delivers.alive_before (h : Delivers k r it message stack walk ms turns last)
    (hSound : Sound ⟨k, .task (.announce r message) :: stack, false⟩) {c : Turn} (hc : c ∈ turns)
    (hAlive : c.alive = true) : k.alive c.target = true := by
  have hSeen : Moment.turn c ∈ ms.filterMap (moment? stack.length) := by
    rw [h.moments]
    exact (sublist_moments turns).subset (List.mem_map_of_mem hc)
  obtain ⟨x, hx, hMoment⟩ := List.mem_filterMap.mp hSeen
  obtain ⟨pre, post, hSplit⟩ := List.append_of_mem hx
  -- whichever reporter one looks at, the machines before have only let go
  have hBefore := h.visits.alive_iff hSound hSplit 0 c.target
  rw [← network_of_turn hMoment] at hBefore
  exact (hBefore.mp hAlive).1

end Delivers

/-- **Whom a notification reaches.** Each live registration has its turn, in order, and is called unless
it has been let go of since; where listeners only listen, all are called. -/
theorem exists_reach {k : Network} {r : ReporterId} (hr : r < k.reporters.length)
    (message : Option String) (stack : List Frame)
    (hSound : Sound ⟨k, .task (.announce r message) :: stack, false⟩) :
    ∃ (ms : List Machine) (turns : List Turn),
      Visits ⟨k, .task (.announce r message) :: stack, false⟩ ms
        ⟨k.announce r message, stack, false⟩ ∧
      (∀ x ∈ ms, x.Above stack) ∧
      (turns.map Moment.turn).Sublist (ms.filterMap (moment? stack.length)) ∧
      turns.map Turn.target = k.live r ∧
      ms.filterMap (call? stack.length) = turns.filter Turn.alive ∧
      (∀ pre x post c, ms = pre ++ x :: post → x.moment? stack.length = some (.turn c) → c ∈ turns →
        (c.alive = true ↔ Change.release c.target ∉ pre.flatMap (Machine.changes r))) ∧
      (k.Passive → (ms.filterMap (call? stack.length)).map Turn.target = k.live r) := by
  obtain ⟨it, hIt⟩ : ∃ it, k.reporters[r]? = some it := ⟨_, List.getElem?_eq_getElem hr⟩
  obtain ⟨walk, ms, turns, last, h⟩ := exists_delivers hIt message stack
  -- of the turns of the walk, those of the registrations that are alive at the start
  have hTargets : (turns.filter fun c => k.alive c.target).map Turn.target = k.live r := by
    rw [live, registrations, hIt, Option.elim_some, ← h.walks.targets, List.filter_map]
    rfl
  refine ⟨ms, turns.filter fun c => k.alive c.target, h.visits, h.above, ?_, hTargets, ?_, ?_, ?_⟩
  · rw [h.moments]
    exact (List.filter_sublist.map _).trans (sublist_moments turns)
  · -- who is called was alive at the start, as nobody comes back
    rw [h.calls, List.filter_filter]
    refine List.filter_congr fun c hc => ?_
    cases hAlive : c.alive
    · rfl
    · rw [h.alive_before hSound hc hAlive]
      rfl
  · -- a turn finds the target dead only if it has been let go of before
    intro pre x post c hSplit hMoment hc
    have hStart : k.alive c.target = true := (List.mem_filter.mp hc).2
    have hIff := h.visits.alive_iff hSound hSplit r c.target
    rw [← network_of_turn hMoment] at hIff
    exact hIff.trans (and_iff_right hStart)
  · intro hPassive
    rw [h.calls, ← hTargets]
    refine congrArg (List.map Turn.target) (List.filter_congr fun c hc => ?_)
    exact h.alive_of_passive hPassive c hc

/-- **A reporter keeps the list of its live registrations.** At every moment of every history, the live
registrations are those that the changes so far leave of a list without dead entries; they are what is
counted; and a notification gives each of them its turn, in order, and calls those that have not been let
go of since it began: all of them, where listeners only listen. -/
theorem live_list_refinement {r : ReporterId} {n : Network} {cs : List Change} {m : Machine}
    (h : History r n cs m) (hr : r < n.reporters.length) :
    m.network.live r = cs.foldl Change.apply (n.live r) ∧
    m.network.liveCount r = (cs.foldl Change.apply (n.live r)).length ∧
    ∀ (message : Option String) (stack : List Frame),
      m = ⟨m.network, .task (.announce r message) :: stack, false⟩ →
      ∃ (ms : List Machine) (turns : List Turn),
        Visits m ms ⟨m.network.announce r message, stack, false⟩ ∧
        (∀ x ∈ ms, x.Above stack) ∧
        (turns.map Moment.turn).Sublist (ms.filterMap (moment? stack.length)) ∧
        turns.map Turn.target = cs.foldl Change.apply (n.live r) ∧
        ms.filterMap (call? stack.length) = turns.filter Turn.alive ∧
        (∀ pre x post c, ms = pre ++ x :: post → x.moment? stack.length = some (.turn c) → c ∈ turns →
          (c.alive = true ↔ Change.release c.target ∉ pre.flatMap (Machine.changes r))) ∧
        (m.network.Passive →
          (ms.filterMap (call? stack.length)).map Turn.target = cs.foldl Change.apply (n.live r)) := by
  obtain ⟨hSound, hReporter, hLive⟩ := h.kept hr
  -- from here on there is one list
  rw [← hLive]
  refine ⟨rfl, liveCount_eq_length _ r, fun message stack hm => ?_⟩
  generalize m.network = k at hm hReporter
  subst hm
  exact exists_reach hReporter message stack hSound

/-- A reporter with two listeners that only listen, and nobody registered. -/
def square : Network where
  reporters := [⟨1, "Bell", [], false, true, 0⟩]
  listeners := [⟨"ann", [], false, true, 0⟩, ⟨"ben", [], false, true, 0⟩]

/-- The second listener is let go of while it is registered between the two registrations of the first,
of which one is then taken back: the notification reaches the other. -/
theorem live_list_refinement_square :
    ∃ (k : Network) (cs : List Change),
      History 0 square cs (start k (.announce 0 none)) ∧ k.registrations 0 = [.listener 1, .listener 0] ∧
        k.liveCount 0 = 1 ∧
        ∃ ms, Visits (start k (.announce 0 none)) ms (done (k.announce 0 none)) ∧
          (ms.filterMap (call? 0)).map Turn.target = [.listener 0] := by
  have hHistory : History 0 square [.add (.listener 0), .add (.listener 1), .add (.listener 0),
      .release (.listener 1), .remove (.listener 0)] (start _ (.announce 0 none)) :=
    .notify (.remove (.release (.add (.add (.add .start (by decide)) (by decide)) (by decide))
      (by decide)) _) 0 none
  obtain ⟨-, hCount, hReach⟩ := live_list_refinement hHistory (by decide)
  obtain ⟨ms, turns, hVisits, -, -, -, -, -, hCalls⟩ := hReach none [] rfl
  exact ⟨_, _, hHistory, by decide, hCount, ms, hVisits, hCalls (by decide)⟩

end Breadboard.Network
