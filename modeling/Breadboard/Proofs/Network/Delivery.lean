import Breadboard.Proofs.Network.Visits

/-!
# Breadboard — one delivery

A reporter that sends an event walks a copy of its registrations. Listeners may do what they like
meanwhile: change this list and others, let go of one another and of reporters, send again (from this
reporter too, which then walks a copy of its own) and break down. `delivery_walks_snapshot` says what the
walk does all the same, by what can be seen of it on the stack:

* a `Turn` is a registration that the walk has come to, with the network at that moment;
* the moments of a walk are its turns, its calls, and the ends of the calls (`moment?`). What belongs
  to one walk and not to another that happens inside it is told by the height of the stack.
-/

namespace Breadboard.Network

open Machine

/-- A registration that a walk has come to. -/
structure Turn where
  /-- How things stand then. -/
  network : Network
  target : Target
  event : Event

namespace Turn

/-- Whether the target is alive at its turn. -/
def alive (c : Turn) : Bool :=
  c.network.alive c.target

/-- The network after the call, with all that follows from it. -/
def told (c : Turn) : Network :=
  c.network.after (.tell c.target c.event)

/-- The network when the turn is over: a call is made to one who is alive, and contained. -/
def left (name : String) (c : Turn) : Network :=
  if c.alive then c.told.contain name (c.network.crashes c.target) else c.network

end Turn

/-- What can be seen of a walk. -/
inductive Moment where
  /-- The walk has come to a registration. -/
  | turn (c : Turn)
  /-- The target is about to be told. -/
  | call (c : Turn)
  /-- The call is over, and the target may have broken down. -/
  | over (n : Network)

/-- What there is to be seen of a registration: of the dead, only that their turn has come. -/
def Turn.moments (c : Turn) : List Moment :=
  if c.alive then [.turn c, .call c, .over c.told] else [.turn c]

/-- The call of a moment that is one. -/
def Moment.call? : Moment → Option Turn
  | .call c => some c
  | _ => none

namespace Machine

/-- What a machine shows of the delivery that has `depth` frames below it on the stack. -/
def moment? (depth : Nat) (m : Machine) : Option Moment :=
  match m.stack with
  -- the walk lies on the frame that says whose it is
  | .task (.offer _ e (t :: _)) :: below =>
    if m.crashing = false ∧ below.length = depth + 1 then some (.turn ⟨m.network, t, e⟩) else none
  -- a call lies on its shield, and that on the rest of the walk
  | .task (.tell t e) :: below =>
    if m.crashing = false ∧ below.length = depth + 3 then some (.call ⟨m.network, t, e⟩) else none
  | .shield _ :: below => if below.length = depth + 2 then some (.over m.network) else none
  | _ => none

/-- The call that a machine is about to make for the delivery with `depth` frames below it. -/
def call? (depth : Nat) (m : Machine) : Option Turn :=
  (m.moment? depth).bind Moment.call?

/-- Far enough up the stack nothing is seen of a walk. -/
theorem moment?_of_length {depth : Nat} {m : Machine} (h : depth + 4 < m.stack.length) :
    m.moment? depth = none := by
  unfold moment?
  split
  case h_4 => rfl
  all_goals
    rename_i hStack
    rw [hStack, List.length_cons] at h
    exact if_neg fun hSame => by omega

/-- Something lies on top of the stack, and it is not just a call. -/
def Inside (stack : List Frame) (m : Machine) : Prop :=
  ∃ frames frame, frame.isTell = false ∧ m.stack = frames ++ frame :: stack

/-- Inside a call the machine is above the stack that the call was made from. -/
theorem Inside.above {stack : List Frame} {m : Machine} (h : m.Inside stack) : m.Above stack := by
  obtain ⟨frames, frame, -, hStack⟩ := h
  exact ⟨frames ++ [frame], by simp, by rw [hStack, List.append_assoc, List.singleton_append]⟩

/-- Nothing is seen of a walk while what follows from a call takes its course. -/
theorem Inside.moment? {stack : List Frame} {m : Machine} (h : m.Inside stack) {depth : Nat}
    (hDepth : stack.length = depth + 3) : m.moment? depth = none := by
  obtain ⟨frames, frame, hTell, hStack⟩ := h
  cases frames with
  | cons frame' frames =>
    -- with more on top than a call has, it is too high to be part of the walk
    refine moment?_of_length ?_
    rw [hStack, List.length_append, List.length_cons, List.length_cons]
    omega
  | nil =>
    -- as high as a call, so it matters that it is none
    unfold Machine.moment?
    rw [hStack, List.nil_append]
    split
    next hEq =>
      cases hEq
      exact if_neg fun hSame => by omega
    next hEq =>
      cases hEq
      simp [Frame.isTell] at hTell
    next hEq =>
      cases hEq
      exact if_neg fun hSame => by omega
    next => rfl

end Machine

-- ---------------------------------------------------------------------------
-- One call
-- ---------------------------------------------------------------------------

/-- A piece of work that is part of a call, with the frame that ends the call. -/
theorem exists_visits_inside (n : Network) (task : Task) (frame : Frame) (hTell : frame.isTell = false)
    (stack : List Frame) :
    ∃ ms, Visits ⟨n, .task task :: frame :: stack, false⟩ ms
        (Machine.step ⟨n.after task, frame :: stack, n.breaks task⟩) ∧
      ∀ m ∈ ms, m.Inside stack := by
  obtain ⟨ms, hVisits, hAbove⟩ := exists_visits n task (frame :: stack)
  -- the last machine inside is the one that has the frame on top
  refine ⟨ms ++ [_], hVisits.trans (.step (.refl _)), ?_⟩
  rw [List.forall_mem_append, List.forall_mem_singleton]
  refine ⟨fun m hm => ?_, [], frame, hTell, rfl⟩
  obtain ⟨frames, -, hStack⟩ := hAbove m hm
  exact ⟨frames, frame, hTell, hStack⟩

/-- A call, with all that follows from it. -/
theorem exists_visits_tell (n : Network) (t : Target) (e : Event) (stack : List Frame) :
    ∃ ms, Visits ⟨n, .task (.tell t e) :: stack, false⟩
        (⟨n, .task (.tell t e) :: stack, false⟩ :: ms)
        ⟨n.after (.tell t e), stack, n.crashes t⟩ ∧
      ∀ m ∈ ms, m.Inside stack := by
  cases t with
  | listener l =>
    rw [after_tell_listener]
    cases hl : n.listeners[l]? with
    | none => exact ⟨[], .step (by simpa [step, advance, hl, crashes] using .refl _), by simp⟩
    | some it =>
      cases hs : it.script with
      -- with nothing to do the call is over at once
      | nil =>
        exact ⟨[], .step (by simpa [step, advance, hl, hs, crashes] using .refl _), by simp⟩
      | cons response rest =>
        obtain ⟨ms, hVisits, hInside⟩ := exists_visits_inside
          ((n.emit (.heard it.handle e)).beginHearing l) (.perform response.deeds)
          (.hearing l it.breaks) rfl stack
        refine ⟨ms, .step ?_, hInside⟩
        simpa [step, advance, hl, hs, breaks, crashes] using hVisits
  | reporter r =>
    rw [after_tell_reporter]
    cases hr : n.reporters[r]? with
    | none => exact ⟨[], .step (by simpa [step, advance, hr, crashes] using .refl _), by simp⟩
    | some it =>
      cases hm : it.reemitting with
      | true => exact ⟨[], .step (by simpa [step, advance, hr, hm, crashes] using .refl _), by simp⟩
      | false =>
        obtain ⟨ms, hVisits, hInside⟩ := exists_visits_inside
          (n.mark r true) (.announce r e.message) (.passing r) rfl stack
        refine ⟨ms, .step ?_, hInside⟩
        simpa [step, advance, hr, hm, breaks, crashes] using hVisits

/-- The end of a call, whether or not the target broke down. -/
theorem step_shield (n : Network) (name : String) (crashed : Bool) (stack : List Frame) :
    Machine.step ⟨n, .shield name :: stack, crashed⟩ = ⟨n.contain name crashed, stack, false⟩ := by
  cases crashed <;> rfl

-- ---------------------------------------------------------------------------
-- The walk
-- ---------------------------------------------------------------------------

/-- What a walk over a list of targets goes through, on top of a stack. -/
structure Walks (n : Network) (name : String) (e : Event) (ts : List Target) (stack : List Frame)
    (ms : List Machine) (turns : List Turn) : Prop where
  visits : Visits ⟨n, .task (.offer name e ts) :: stack, false⟩ ms
    ⟨n.after (.offer name e ts), stack, false⟩
  above : ∀ m ∈ ms, m.Above stack
  /-- Each target has its turn, in order. -/
  targets : turns.map Turn.target = ts
  events : ∀ c ∈ turns, c.event = e
  /-- A turn begins where the one before has left off. -/
  chain : n :: turns.map (Turn.left name) = turns.map Turn.network ++ [n.after (.offer name e ts)]
  /-- That is what there is to be seen of the delivery that the walk is part of. -/
  moments : ∀ depth, stack.length = depth + 1 →
    ms.filterMap (moment? depth) = turns.flatMap Turn.moments

section Walks

variable {n : Network} {name : String} {e : Event} {t : Target} {ts : List Target}
  {stack : List Frame} {ms : List Machine} {turns : List Turn} {depth : Nat}

theorem above_offer : Machine.Above stack ⟨n, .task (.offer name e ts) :: stack, false⟩ :=
  ⟨[_], by simp, rfl⟩

/-- A walk with a registration ahead of it has come to that one. -/
theorem moment?_offer (hDepth : stack.length = depth + 1) :
    Machine.moment? depth ⟨n, .task (.offer name e (t :: ts)) :: stack, false⟩ =
      some (.turn ⟨n, t, e⟩) := by
  simp [Machine.moment?, hDepth]

/-- A walk over nobody is over at once. -/
theorem walks_nil (n : Network) (name : String) (e : Event) (stack : List Frame) :
    Walks n name e [] stack [⟨n, .task (.offer name e []) :: stack, false⟩] [] where
  visits := by
    rw [after_offer_nil]
    exact .step (.refl _)
  above := List.forall_mem_singleton.mpr above_offer
  targets := rfl
  events := by simp
  chain := by rw [after_offer_nil]; rfl
  moments _ _ := rfl

/-- A dead registration is passed over, and the walk goes on from the same network. -/
theorem Walks.pass_over (h : Walks n name e ts stack ms turns) (hDead : n.alive t = false) :
    Walks n name e (t :: ts) stack (⟨n, .task (.offer name e (t :: ts)) :: stack, false⟩ :: ms)
      (⟨n, t, e⟩ :: turns) where
  visits := .step (by simpa [step, advance, after_offer_cons, hDead] using h.visits)
  above := List.forall_mem_cons.mpr ⟨above_offer, h.above⟩
  targets := by rw [List.map_cons, h.targets]
  events := List.forall_mem_cons.mpr ⟨rfl, h.events⟩
  chain := by
    have hLeft : Turn.left name ⟨n, t, e⟩ = n := by simp [Turn.left, Turn.alive, hDead]
    rw [List.map_cons, hLeft, h.chain, after_offer_cons]
    simp [hDead]
  moments depth hDepth := by
    rw [List.filterMap_cons_some (moment?_offer hDepth), h.moments depth hDepth, List.flatMap_cons]
    simp [Turn.moments, Turn.alive, hDead]

/-- A live one is called, and the walk goes on from what the call has left. -/
theorem Walks.call_first
    (h : Walks ((n.after (.tell t e)).contain name (n.crashes t)) name e ts stack ms turns)
    (hAlive : n.alive t = true) :
    ∃ ms, Walks n name e (t :: ts) stack ms (⟨n, t, e⟩ :: turns) := by
  have hAfter : n.after (.offer name e (t :: ts)) =
      ((n.after (.tell t e)).contain name (n.crashes t)).after (.offer name e ts) := by
    rw [after_offer_cons, if_pos hAlive]
  obtain ⟨inside, hCall, hInside⟩ :=
    exists_visits_tell n t e (.shield name :: .task (.offer name e ts) :: stack)
  refine ⟨⟨n, .task (.offer name e (t :: ts)) :: stack, false⟩ ::
      (⟨n, .task (.tell t e) :: .shield name :: .task (.offer name e ts) :: stack, false⟩ :: inside ++
        ⟨n.after (.tell t e), .shield name :: .task (.offer name e ts) :: stack, n.crashes t⟩ :: ms),
    ?_, ?_, ?_, ?_, ?_, fun depth hDepth => ?_⟩
  · -- the call, its end, and the rest of the walk
    have hOffer : Machine.step ⟨n, .task (.offer name e (t :: ts)) :: stack, false⟩ =
        ⟨n, .task (.tell t e) :: .shield name :: .task (.offer name e ts) :: stack, false⟩ :=
      if_pos hAlive
    refine .step ?_
    rw [hOffer, hAfter]
    refine hCall.trans (.step ?_)
    rw [step_shield]
    exact h.visits
  · simp only [List.forall_mem_append, List.forall_mem_cons]
    refine ⟨above_offer, ⟨⟨[_, _, _], by simp, rfl⟩, fun m hm => ?_⟩, ⟨[_, _], by simp, rfl⟩,
      h.above⟩
    obtain ⟨frames, hne, hStack⟩ := (hInside m hm).above
    exact ⟨frames ++ [_, _], by simp, by rw [hStack, List.append_assoc]; rfl⟩
  · -- who has its turn, with which event, and how the networks hang together
    rw [List.map_cons, h.targets]
  · exact List.forall_mem_cons.mpr ⟨rfl, h.events⟩
  · have hLeft : Turn.left name ⟨n, t, e⟩ = (n.after (.tell t e)).contain name (n.crashes t) := by
      simp [Turn.left, Turn.alive, Turn.told, hAlive]
    rw [List.map_cons, hLeft, h.chain, hAfter]
    rfl
  · -- of all that the call leads to, nothing is seen of the delivery
    have hNone : inside.filterMap (moment? depth) = [] := by
      rw [List.filterMap_eq_nil_iff]
      intro m hm
      exact (hInside m hm).moment? (by rw [List.length_cons, List.length_cons, hDepth])
    rw [List.filterMap_cons_some (moment?_offer hDepth), List.filterMap_append, List.flatMap_cons]
    simp [Machine.moment?, hDepth, hNone, h.moments depth hDepth, Turn.moments, Turn.alive, Turn.told,
      hAlive]

end Walks

/-- **A walk, from its first registration to its last.** -/
theorem exists_walks (n : Network) (name : String) (e : Event) (ts : List Target)
    (stack : List Frame) : ∃ ms turns, Walks n name e ts stack ms turns := by
  -- along the copy of the list; the network is whatever the turns before have made of it
  induction ts generalizing n with
  | nil => exact ⟨_, _, walks_nil n name e stack⟩
  | cons t ts ih =>
    cases hAlive : n.alive t with
    | false =>
      obtain ⟨ms, turns, h⟩ := ih n
      exact ⟨_, _, h.pass_over hAlive⟩
    | true =>
      obtain ⟨ms, turns, h⟩ := ih ((n.after (.tell t e)).contain name (n.crashes t))
      obtain ⟨ms', h'⟩ := h.call_first hAlive
      exact ⟨ms', _, h'⟩

/-- The calls of a walk are those of the turns at which the target is alive. -/
theorem Walks.calls {n : Network} {name : String} {e : Event} {ts : List Target} {stack : List Frame}
    {ms : List Machine} {turns : List Turn} (h : Walks n name e ts stack ms turns) {depth : Nat}
    (hDepth : stack.length = depth + 1) :
    ms.filterMap (call? depth) = turns.filter Turn.alive := by
  have hCalls : ms.filterMap (call? depth) =
      (ms.filterMap (moment? depth)).filterMap Moment.call? := by
    rw [List.filterMap_filterMap]
    rfl
  rw [hCalls, h.moments depth hDepth]
  -- of the moments of one turn, at most one is a call
  generalize turns = turns
  induction turns with
  | nil => rfl
  | cons c turns ih =>
    rw [List.flatMap_cons, List.filterMap_append, ih, Turn.moments]
    cases hAlive : c.alive
    · rw [List.filter_cons_of_neg (by simp [hAlive])]
      rfl
    · rw [List.filter_cons_of_pos hAlive]
      rfl

-- ---------------------------------------------------------------------------
-- A delivery
-- ---------------------------------------------------------------------------

/-- What a delivery goes through on top of a stack: a step that takes the copy, a walk over the copy that
ends at the network `last`, and a step that brings the reporter back from the walk. -/
structure Delivers (n : Network) (r : ReporterId) (it : Reporter) (message : Option String)
    (stack : List Frame) (walk ms : List Machine) (turns : List Turn) (last : Network) : Prop where
  walks : Walks ((n.beginCall r).note (.delivering it.name it.registrations.length message.isNone))
    it.name ⟨it.source, it.name, message⟩ it.registrations (.walking r :: stack) walk turns
  machines : ms = ⟨n, .task (.announce r message) :: stack, false⟩ :: walk ++
    [⟨last, .walking r :: stack, false⟩]
  visits : Visits ⟨n, .task (.announce r message) :: stack, false⟩ ms
    ⟨n.announce r message, stack, false⟩
  chain : (n.beginCall r).note (.delivering it.name it.registrations.length message.isNone) ::
    turns.map (Turn.left it.name) = turns.map Turn.network ++ [last]
  back : n.announce r message = last.endCall r

/-- Every delivery goes its way to the end. -/
theorem exists_delivers {n : Network} {r : ReporterId} {it : Reporter} (hr : n.reporters[r]? = some it)
    (message : Option String) (stack : List Frame) :
    ∃ walk ms turns last, Delivers n r it message stack walk ms turns last := by
  obtain ⟨walk, turns, hWalks⟩ := exists_walks
    ((n.beginCall r).note (.delivering it.name it.registrations.length message.isNone)) it.name
    ⟨it.source, it.name, message⟩ it.registrations (.walking r :: stack)
  have hBack : n.announce r message =
      (((n.beginCall r).note (.delivering it.name it.registrations.length message.isNone)).after
        (.offer it.name ⟨it.source, it.name, message⟩ it.registrations)).endCall r := by
    rw [announce, after_announce, hr]
  refine ⟨walk, _, turns, _, hWalks, rfl, ?_, hWalks.chain, hBack⟩
  -- the copy is taken in the first step; the last one ends the walk
  have hFirst : Machine.step ⟨n, .task (.announce r message) :: stack, false⟩ =
      ⟨(n.beginCall r).note (.delivering it.name it.registrations.length message.isNone),
        .task (.offer it.name ⟨it.source, it.name, message⟩ it.registrations) :: .walking r :: stack,
        false⟩ := by
    simp [step, advance, hr]
  rw [List.cons_append, hBack]
  refine .step ?_
  rw [hFirst]
  exact hWalks.visits.trans (.step (.refl _))

section Delivers

variable {n : Network} {r : ReporterId} {it : Reporter} {message : Option String} {stack : List Frame}
  {walk ms : List Machine} {turns : List Turn} {last : Network}

/-- While a delivery lasts, the stack below it is left alone. -/
theorem Delivers.above (h : Delivers n r it message stack walk ms turns last) :
    ∀ m ∈ ms, m.Above stack := by
  rw [h.machines]
  simp only [List.cons_append, List.forall_mem_append, List.forall_mem_cons]
  refine ⟨⟨[_], by simp, rfl⟩, fun m hm => ?_, ⟨[_], by simp, rfl⟩, by simp⟩
  obtain ⟨frames, -, hStack⟩ := h.walks.above m hm
  exact ⟨frames ++ [.walking r], by simp, by rw [hStack, List.append_assoc]; rfl⟩

/-- All that is seen of a delivery is seen of its walk. -/
theorem Delivers.moments (h : Delivers n r it message stack walk ms turns last) :
    ms.filterMap (moment? stack.length) = turns.flatMap Turn.moments := by
  rw [← h.walks.moments stack.length rfl, h.machines, List.filterMap_append]
  exact List.append_nil _

/-- The calls of a delivery are those of the turns at which the target is alive. -/
theorem Delivers.calls (h : Delivers n r it message stack walk ms turns last) :
    ms.filterMap (call? stack.length) = turns.filter Turn.alive := by
  rw [← h.walks.calls rfl, h.machines, List.filterMap_append]
  exact List.append_nil _

end Delivers

/-- Who is alive at each of its turns is called as often as it had its turn. -/
theorem count_filter_alive {turns : List Turn} {t : Target}
    (h : ∀ c ∈ turns, c.target = t → c.alive = true) :
    ((turns.filter Turn.alive).map Turn.target).count t = (turns.map Turn.target).count t := by
  induction turns with
  | nil => rfl
  | cons c turns ih =>
    rw [List.forall_mem_cons] at h
    -- a turn of somebody else counts on neither side
    by_cases hc : c.target = t
    · simp [h.1 hc, ih h.2, hc]
    · cases hAlive : c.alive <;> simp [hAlive, ih h.2, hc]

/-- **A delivery walks the list as it stood.** Whatever listeners do meanwhile, it comes to an end; each
registration of the list as it stood at the start has its turn, in order and with the same event, and is
called if the target is alive then; a turn begins with the network that the call before has left, all
that followed from it included, and with the last one the reporter is back from its walk. A target that
is alive when its turns come is called once for each registration that it had at the start, whether or
not they have been taken back since, and for no registration that has been added; and every list of
registrations is afterwards what the edits on the way, in the order in which they were made, have made
of it. -/
theorem delivery_walks_snapshot {n : Network} {r : ReporterId} {it : Reporter}
    (hr : n.reporters[r]? = some it) (message : Option String) (stack : List Frame) :
    ∃ (ms : List Machine) (turns : List Turn),
      Visits ⟨n, .task (.announce r message) :: stack, false⟩ ms
        ⟨n.announce r message, stack, false⟩ ∧
      (∀ m ∈ ms, m.Above stack) ∧
      turns.map Turn.target = it.registrations ∧
      (∀ c ∈ turns, c.event = ⟨it.source, it.name, message⟩) ∧
      ms.filterMap (moment? stack.length) = turns.flatMap Turn.moments ∧
      ms.filterMap (call? stack.length) = turns.filter Turn.alive ∧
      (∃ last, (n.beginCall r).note (.delivering it.name it.registrations.length message.isNone) ::
          turns.map (Turn.left it.name) = turns.map Turn.network ++ [last] ∧
        n.announce r message = last.endCall r) ∧
      (∀ t, (∀ c ∈ turns, c.target = t → c.alive = true) →
        ((ms.filterMap (call? stack.length)).map Turn.target).count t = it.registrations.count t) ∧
      ∀ s < n.reporters.length,
        (n.announce r message).registrations s = ms.foldl (Machine.revise s) (n.registrations s) := by
  obtain ⟨walk, ms, turns, last, h⟩ := exists_delivers hr message stack
  refine ⟨ms, turns, h.visits, h.above, h.walks.targets, h.walks.events, h.moments, h.calls,
    ⟨last, h.chain, h.back⟩, fun t hAlive => ?_, fun s hs => h.visits.registrations hs⟩
  rw [h.calls, count_filter_alive hAlive, h.walks.targets]

/-- The first listener takes the second off the list, puts the third there, lets go of a reporter that
comes between them, sends in its turn, and breaks down. -/
def bustle : Network where
  handles := .ofList [("bell", Object.reporter 0), ("chime", Object.reporter 1),
    ("ann", Object.listener 0), ("ben", Object.listener 1), ("cay", Object.listener 2)]
  reporters := [⟨1, "Bell", [.listener 0, .reporter 1, .listener 1], false, true, 0⟩,
    ⟨2, "Chime", [.listener 2], false, true, 0⟩]
  listeners := [
    ⟨"ann", [⟨[.act (.edit (.remove "bell" "ben")), .act (.edit (.add "bell" "cay")), .release "chime",
      .act (.notify "bell" none)], true⟩], false, true, 0⟩,
    ⟨"ben", [], false, true, 0⟩, ⟨"cay", [], false, true, 0⟩]

/-- The second listener is called although it has been taken off the list, and the third is not; nor is
the reporter, which was alive when the walk began. -/
theorem delivery_walks_snapshot_bustle :
    bustle.reporters[0]? =
        some ⟨1, "Bell", [.listener 0, .reporter 1, .listener 1], false, true, 0⟩ ∧
      bustle.alive (.reporter 1) = true ∧
      ∃ ms, Visits (start bustle (.announce 0 (some "ring"))) ms
          (done (bustle.announce 0 (some "ring"))) ∧
        (ms.filterMap (call? 0)).map Turn.target = [.listener 0, .listener 1] ∧
        (bustle.announce 0 (some "ring")).registrations 0 =
          [.listener 0, .reporter 1, .listener 2] := by
  have hBell : bustle.reporters[0]? =
      some ⟨1, "Bell", [.listener 0, .reporter 1, .listener 1], false, true, 0⟩ := rfl
  obtain ⟨ms, turns, hVisits, hAbove, -, -, -, -, -, -, hEdits⟩ :=
    delivery_walks_snapshot hBell (some "ring") []
  -- it takes twenty-six steps
  have hBusy : ∀ m ∈ List.iterate step (start bustle (.announce 0 (some "ring"))) 26,
      m.stack.isEmpty = false := by
    decide +kernel
  have hOver : ¬ (step^[26] (start bustle (.announce 0 (some "ring")))).Above [] := by
    rw [above_nil]
    decide +kernel
  -- as the machine goes only one way, these are the machines in question
  obtain rfl : ms = List.iterate step (start bustle (.announce 0 (some "ring"))) 26 :=
    hVisits.unique hAbove (not_above _ _ _) (visits_iterate _ 26) (fun m hm => above_nil.mpr (hBusy m hm))
      hOver
  refine ⟨hBell, by decide, _, hVisits, by decide +kernel, ?_⟩
  rw [hEdits 0 (by decide)]
  decide +kernel

end Breadboard.Network
