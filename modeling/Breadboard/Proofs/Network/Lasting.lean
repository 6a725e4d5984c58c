import Breadboard.Proofs.Network.Visits

/-!
# Breadboard — what lasts in a network

Whatever goes on in a network, every reporter keeps the identity and the name that it speaks with
(`Network.voices`), has its mark back when all is over, and no pin gets a handle (`Network.Abides`). So it
is for fan-out as a whole, whatever the scripts say (`Network.abides_after`), and for each of the small
changes that are made to a network from outside.
-/

namespace Breadboard.Network

-- ---------------------------------------------------------------------------
-- Who speaks
-- ---------------------------------------------------------------------------

/-- The identities and names that the reporters speak with. -/
def voices (n : Network) : List (Ident × String) :=
  n.reporters.map fun it => (it.source, it.name)

/-- A change of a reporter that keeps identity and name keeps all voices. -/
theorem voices_modify (n : Network) (r : ReporterId) {f : Reporter → Reporter}
    (hf : ∀ it, (f it).source = it.source ∧ (f it).name = it.name) :
    ((n.reporters.modify r f).map fun it => (it.source, it.name)) = n.voices := by
  refine List.ext_getElem? fun i => ?_
  rw [voices, List.getElem?_map, List.getElem?_map, List.getElem?_modify]
  split <;> cases n.reporters[i]? <;> simp [hf]

/-- Nobody speaks differently for being on a walk. -/
theorem voices_beginCall (n : Network) (r : ReporterId) : (n.beginCall r).voices = n.voices :=
  voices_modify n r fun _ => by split <;> exact ⟨rfl, rfl⟩

theorem voices_endCall (n : Network) (r : ReporterId) : (n.endCall r).voices = n.voices :=
  voices_modify n r fun _ => ⟨rfl, rfl⟩

/-- Who is let go of is still the one that it was. -/
theorem voices_letGo (n : Network) (t : Target) : (n.letGo t).voices = n.voices := by
  cases t with
  | listener l => rfl
  | reporter r => exact voices_modify n r fun _ => ⟨rfl, rfl⟩

/-- No step gives a reporter another identity or name … -/
theorem voices_touched (n : Network) (touch : Touch) : (n.touched touch).voices = n.voices := by
  cases touch with
  | mark r b => exact voices_modify n r fun _ => ⟨rfl, rfl⟩
  | register r t => exact voices_modify n r fun _ => ⟨rfl, rfl⟩
  | unregister r t => exact voices_modify n r fun _ => ⟨rfl, rfl⟩
  -- walks and handles change who is held, and no more
  | depart r x => exact voices_beginCall n r
  | back r => exact voices_endCall n r
  | drop handle t => exact voices_letGo (n.unbind handle) t
  | _ => rfl

/-- … nor do steps in a row. -/
theorem Machine.Visits.voices {m m' : Machine} {ms : List Machine} (h : Visits m ms m') :
    m'.network.voices = m.network.voices := by
  induction h with
  | refl => rfl
  | step _ ih => rw [ih, step_network, voices_touched]

/-- Fan-out lets every reporter keep its identity and its name. -/
theorem voices_after (n : Network) (task : Task) : (n.after task).voices = n.voices := by
  obtain ⟨ms, hVisits, -⟩ := exists_visits n task []
  exact hVisits.voices

/-- A reporter announces something to the list of its registrations as it stands, with its identity and in
its name. -/
theorem announce_of_voice {n : Network} {r : ReporterId} {source : Ident} {name : String}
    (hVoice : n.voices[r]? = some (source, name)) (message : Option String) :
    n.announce r message =
      (((n.beginCall r).note (.delivering name (n.registrations r).length message.isNone)).after
        (.offer name ⟨source, name, message⟩ (n.registrations r))).endCall r := by
  -- a reporter that has a voice is there
  rw [voices, List.getElem?_map] at hVoice
  obtain ⟨it, hr, hEq⟩ := Option.map_eq_some_iff.mp hVoice
  obtain ⟨rfl, rfl⟩ := Prod.mk.inj hEq
  have hTargets : n.registrations r = it.registrations := by rw [registrations, hr, Option.elim_some]
  rw [announce, after_announce, hr, hTargets]

-- ---------------------------------------------------------------------------
-- What lasts
-- ---------------------------------------------------------------------------

/-- All reporters have kept identity, name and mark, and no pin has got a handle. -/
structure Abides (n n' : Network) : Prop where
  voices : n'.voices = n.voices
  marks : n'.marks = n.marks
  pins : ∀ handle p, n'.object? handle = some (.pin p) → n.object? handle = some (.pin p)

/-- Where neither reporters nor handles have changed, all lasts. -/
theorem Abides.of_eq {n n' : Network} (hReporters : n'.reporters = n.reporters)
    (hHandles : n'.handles = n.handles) : Abides n n' where
  voices := by rw [Network.voices, hReporters, Network.voices]
  marks := by rw [Network.marks, hReporters, Network.marks]
  pins handle p h := by rwa [object?, hHandles] at h

/-- **All lasts through fan-out**, whatever the scripts say. -/
theorem abides_after (n : Network) (task : Task) : Abides n (n.after task) :=
  ⟨voices_after n task, marks_after n task, fun _ _ => object?_after⟩

/-- Setting out on a walk and coming back changes how often a reporter is held, and nothing that lasts.
-/
theorem abides_beginCall (n : Network) (r : ReporterId) : Abides n (n.beginCall r) :=
  ⟨voices_beginCall n r, (later_beginCall n r).marks_eq, fun _ _ h => h⟩

theorem abides_endCall (n : Network) (r : ReporterId) : Abides n (n.endCall r) :=
  ⟨voices_endCall n r, (later_endCall n r).marks_eq, fun _ _ h => h⟩

/-- Nor do registrations, when they come and when they go. -/
theorem abides_register (n : Network) (r : ReporterId) (t : Target) : Abides n (n.register r t) :=
  ⟨voices_touched n (.register r t), (later_register n r t).marks_eq, fun _ _ h => h⟩

theorem abides_unregister (n : Network) (r : ReporterId) (t : Target) : Abides n (n.unregister r t) :=
  ⟨voices_touched n (.unregister r t), (later_unregister n r t).marks_eq, fun _ _ h => h⟩

/-- A reporter that is let go of keeps all that lasts. -/
theorem abides_disownReporter (n : Network) (r : ReporterId) : Abides n (n.disownReporter r) :=
  ⟨voices_letGo n (.reporter r), (later_letGo n (.reporter r)).marks_eq, fun _ _ h => h⟩

theorem abides_unbind (n : Network) (handle : String) : Abides n (n.unbind handle) :=
  ⟨rfl, rfl, fun _ _ => object?_unbind⟩

/-- The network with a handle bound to a thing. -/
def bound (n : Network) (handle : String) (o : Object) : Network :=
  { n with handles := n.handles.insert handle o }

/-- What a handle stands for once one is bound is the thing, or what it stood for before. -/
theorem eq_or_object?_of_bound {n : Network} {handle other : String} {o o' : Object}
    (h : (n.bound handle o).object? other = some o') : o = o' ∨ n.object? other = some o' := by
  rw [object?, bound, Std.TreeMap.getElem?_insert] at h
  split at h
  · exact .inl (Option.some.inj h)
  · exact .inr h

/-- Where a handle is bound to a thing other than a pin, no pin gets a handle. -/
theorem abides_bound (n : Network) (handle : String) {o : Object} (ho : ∀ p, o ≠ .pin p) :
    Abides n (n.bound handle o) := by
  refine ⟨rfl, rfl, fun other p h => ?_⟩
  exact (eq_or_object?_of_bound h).resolve_left (ho p)

end Breadboard.Network
