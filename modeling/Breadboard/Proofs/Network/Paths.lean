import Breadboard.Proofs.Network.Passive
import Mathlib.Logic.Relation

/-!
# Breadboard — an event travels along simple paths

Reporters that are registered with one another form a directed graph, with parallel edges, loops and
cycles, and an event that one of them is told of is passed on along it. In a passive network with no
mark set, where it comes to is a matter of the graph alone (`passive_fanout_along_simple_paths`):

* each **simple** path of live registrations, from the reporter that was told, brings it once to
  each live listener registered at the end of the path, in depth-first order;
* a registration that leads from the end of a simple path back onto it is where a copy is dropped;
* so the marks lose nothing: whoever is registered with a reporter that can be reached hears of it.
-/

namespace Breadboard.Network

variable {n : Network} {s r : ReporterId} {e : Event} {message : Option String}
  {is : List Nat} {path busy : List ReporterId} {x : Entry}

/-! ## Paths -/

/-- `n.Path s is path r`: from `s`, the live registrations at the positions `is` lead through the
reporters `path`, both ends included, to `r`. -/
inductive Path (n : Network) : ReporterId → List Nat → List ReporterId → ReporterId → Prop
  | here (r : ReporterId) : Path n r [] [r] r
  | there {s s' r : ReporterId} {it : Reporter} {i : Nat} {is : List Nat}
    {path : List ReporterId} (hs : n.reporters[s]? = some it)
    (hi : it.registrations[i]? = some (.reporter s')) (hAlive : n.alive (.reporter s') = true)
    (h : Path n s' is path r) : Path n s (i :: is) (s :: path) r

/-- A live registration of one reporter with another. -/
def Leads (n : Network) (s s' : ReporterId) : Prop :=
  ∃ it, n.reporters[s]? = some it ∧ .reporter s' ∈ it.registrations ∧
    n.alive (.reporter s') = true

/-- From any reporter on a path, the rest of it is a path. -/
theorem Path.exists_suffix (h : n.Path s is path r) {y : ReporterId} (hy : y ∈ path) :
    ∃ js rest, n.Path y js rest r ∧ rest <:+ path := by
  induction h with
  | here r =>
    obtain rfl := List.mem_singleton.1 hy
    exact ⟨[], [y], .here y, List.suffix_rfl⟩
  | @there s s' r it i is path hs hi hAlive h ih =>
    rcases List.mem_cons.1 hy with rfl | hy
    · exact ⟨i :: is, y :: path, .there hs hi hAlive h, List.suffix_rfl⟩
    · obtain ⟨js, rest, hPath, hSuffix⟩ := ih hy
      exact ⟨js, rest, hPath, hSuffix.trans (List.suffix_cons _ _)⟩

/-- What can be reached can be reached by a simple path: detours are left out. -/
theorem exists_simple_path (h : Relation.ReflTransGen n.Leads s r) :
    ∃ is path, n.Path s is path r ∧ path.Nodup := by
  induction h using Relation.ReflTransGen.head_induction_on with
  | refl => exact ⟨[], [r], .here r, List.pairwise_singleton _ r⟩
  | @head s s' hLeads _ ih =>
    obtain ⟨is, path, hPath, hSimple⟩ := ih
    by_cases hs : s ∈ path
    · -- the path comes by `s` again, and can as well start there
      obtain ⟨js, rest, hPath', hSuffix⟩ := hPath.exists_suffix hs
      exact ⟨js, rest, hPath', hSimple.sublist hSuffix.sublist⟩
    · obtain ⟨it, hr, hMem, hAlive⟩ := hLeads
      obtain ⟨i, hi⟩ := List.mem_iff_getElem?.1 hMem
      exact ⟨i :: is, s :: path, .there hr hi hAlive hPath, List.nodup_cons.2 ⟨hs, hSimple⟩⟩

/-! ## What is due -/

/-- What is due when `s` is told of trouble with that message: at the end `r` of a simple path, a
live registration of a listener brings an event of `r`, and one that leads back onto the path is
where it is dropped. -/
inductive Due (n : Network) (s : ReporterId) (message : Option String) : List Nat → Entry → Prop
  | atEnd {r : ReporterId} {it : Reporter} {is : List Nat} {path : List ReporterId} {j : Nat}
    {t : Target} {x : Entry} (hPath : n.Path s is path r) (hSimple : path.Nodup)
    (hr : n.reporters[r]? = some it) (hj : it.registrations[j]? = some t)
    (hAlive : n.alive t = true) (hStop : n.Stops path ⟨it.source, it.name, message⟩ t x) :
    Due n s message (is ++ [j]) x

/-- What is due when a target is told of an event. -/
def DueFrom (n : Network) (e : Event) : Target → List Nat → Entry → Prop
  | .listener l, is, x => is = [] ∧ ∃ it, n.listeners[l]? = some it ∧ x = .heard it.handle e
  | .reporter s, is, x => n.Due s e.message is x

/-- Along a simple path that keeps clear of the busy reporters, the event gets to its end. -/
theorem told_of_path (hPath : n.Path s is path r) (hSimple : path.Nodup)
    (hFree : ∀ y ∈ path, y ∉ busy) {it : Reporter} {j : Nat} {t : Target}
    (hr : n.reporters[r]? = some it) (hj : it.registrations[j]? = some t)
    (hAlive : n.alive t = true)
    (hStop : n.Stops (path ++ busy) ⟨it.source, it.name, e.message⟩ t x) :
    n.Told busy e (.reporter s) (is ++ [j]) x := by
  induction hPath generalizing busy e with
  | here r => exact .onward hr (hFree r (by simp)) hj hAlive (.here hStop)
  | @there s s' r its i is path hs hi hAlive' _ ih =>
    obtain ⟨hNotMem, hSimple'⟩ := List.nodup_cons.1 hSimple
    -- from `s'` on, `s` is one more busy reporter
    refine .onward hs (hFree s (by simp)) hi hAlive' (ih hSimple' ?_ hr ?_)
    · intro y hy hBusy
      rcases List.mem_cons.1 hBusy with rfl | hBusy
      · exact hNotMem hy
      · exact hFree y (List.mem_cons_of_mem _ hy) hBusy
    · exact hStop.congr fun y => by simp [or_left_comm]

/-- Where the event gets to, it gets along a simple path that keeps clear of the busy reporters. -/
theorem path_of_told (h : n.Told busy e (.reporter s) is x) (hs : s ∉ busy) :
    ∃ is' j path r it t, is = is' ++ [j] ∧ n.Path s is' path r ∧ path.Nodup ∧
      (∀ y ∈ path, y ∉ busy) ∧ n.reporters[r]? = some it ∧ it.registrations[j]? = some t ∧
      n.alive t = true ∧ n.Stops (path ++ busy) ⟨it.source, it.name, e.message⟩ t x := by
  generalize hTarget : Target.reporter s = target at h
  induction h generalizing s with
  | here hStop =>
    subst hTarget
    cases hStop with
    | loopedBack _ hBusy => exact absurd hBusy hs
  | @onward busy e s₁ it₁ i t₁ is x hs₁ hIdle hi hAlive₁ hTold ih =>
    cases hTarget
    -- the event ends at the next target, or is passed on by a reporter that was not busy
    cases hTold with
    | here hStop =>
      exact ⟨[], i, [s₁], s₁, it₁, t₁, rfl, .here s₁, List.pairwise_singleton _ s₁,
        by simpa using hs, hs₁, hi, hAlive₁, hStop⟩
    | onward _ hIdle' =>
      obtain ⟨is', j, path, r, it, t, hIs, hPath, hSimple, hFree, hr, hj, hAlive, hStop⟩ :=
        ih hIdle' rfl
      -- the path from there keeps clear of the busy reporters, of which this one is now one
      have hNotMem : s₁ ∉ path := fun hMem => hFree s₁ hMem (List.mem_cons_self ..)
      refine ⟨i :: is', j, s₁ :: path, r, it, t, by simp [hIs], .there hs₁ hi hAlive₁ hPath,
        List.nodup_cons.2 ⟨hNotMem, hSimple⟩, ?_, hr, hj, hAlive,
        hStop.congr fun y => by simp [or_left_comm]⟩
      intro y hy
      rcases List.mem_cons.1 hy with rfl | hy
      · exact hs
      · exact fun hBusy => hFree y hy (List.mem_cons_of_mem _ hBusy)

/-- With no reporter busy, what telling a reporter leads to is what is due. -/
theorem told_iff_due : n.Told [] e (.reporter s) is x ↔ n.Due s e.message is x := by
  constructor
  · intro h
    obtain ⟨is', j, path, r, it, t, rfl, hPath, hSimple, -, hr, hj, hAlive, hStop⟩ :=
      path_of_told h (List.not_mem_nil)
    rw [List.append_nil] at hStop
    exact .atEnd hPath hSimple hr hj hAlive hStop
  · rintro ⟨hPath, hSimple, hr, hj, hAlive, hStop⟩
    refine told_of_path hPath hSimple (fun _ _ => List.not_mem_nil) hr hj hAlive ?_
    rwa [List.append_nil]

/-- With no reporter busy, what telling any target leads to is what is due from it. -/
theorem told_iff_dueFrom {t : Target} : n.Told [] e t is x ↔ n.DueFrom e t is x := by
  cases t with
  | listener l =>
    constructor
    · rintro (⟨⟨hl⟩⟩ | _)
      exact ⟨rfl, _, hl, rfl⟩
    · rintro ⟨rfl, it, hl, rfl⟩
      exact .here (.heard hl)
  | reporter s => exact told_iff_due

/-- Where no mark is set nobody is busy. -/
theorem marksAre_nil (h : ∀ it ∈ n.reporters, it.reemitting = false) : n.MarksAre [] := by
  intro r
  refine iff_of_false ?_ List.not_mem_nil
  rintro ⟨it, hr, hm⟩
  simp [h it (List.mem_of_getElem? hr)] at hm

/-- What is due is on the trace. -/
theorem Traces.mem {due : List Nat → Entry → Prop} {new : List Entry} (h : Traces due new)
    (hDue : due is x) : x ∈ new := by
  obtain ⟨dues, hNew, -, hMem⟩ := h
  have hStops : x ∈ new.filter Entry.isStop :=
    hNew ▸ List.mem_map.2 ⟨(is, x), (hMem is x).2 hDue, rfl⟩
  exact (List.mem_filter.1 hStops).1

/-! ## The main result -/

/--
**An event travels along simple paths.** In a network of passive listeners with no mark set,

* telling a reporter of an event adds to the trace, changes nothing else, and brings the event,
  under the name of the last reporter and in the order of positions, along each simple path of live
  registrations to each live listener at its end; where a registration leads from the end back onto
  the path, the event is dropped and that is noted;
* so each live listener that is registered with a reporter that can be reached hears of it;
* sending a message tells, in their order, the live registrations, with the same result for each as
  telling it alone.
-/
theorem passive_fanout_along_simple_paths (n : Network) (hPassive : n.Passive)
    (hClear : ∀ it ∈ n.reporters, it.reemitting = false) (s : ReporterId) :
    (∀ e : Event, ∃ new,
      n.pass s e = n.said new ∧
      Traces (n.Due s e.message) new ∧
      ∀ r it l hearer, Relation.ReflTransGen n.Leads s r → n.reporters[r]? = some it →
        .listener l ∈ it.registrations → n.listeners[l]? = some hearer → hearer.alive = true →
        .heard hearer.handle ⟨it.source, it.name, e.message⟩ ∈ new) ∧
    (∀ (message : Option String), ∃ new,
      n.announce s message = n.said new ∧
      Traces (fun is x => ∃ it j t js, n.reporters[s]? = some it ∧ is = j :: js ∧
        it.registrations[j]? = some t ∧ n.alive t = true ∧
        n.DueFrom ⟨it.source, it.name, message⟩ t js x) new) := by
  have hMarks := marksAre_nil hClear
  refine ⟨fun e => ?_, fun message => ?_⟩
  · have hYields : n.Yields _ _ :=
      yieldsDue n hPassive n (.tell (.reporter s) e) [] (.refl n) hMarks
    obtain ⟨new, hAfter, hTraces⟩ := hYields
    have hDue : Traces (n.Due s e.message) new := hTraces.congr fun _ _ => told_iff_due
    refine ⟨new, hAfter, hDue, ?_⟩
    intro r it l hearer hReach hr hMem hl hAlive
    -- a reporter that can be reached is the end of a simple path
    obtain ⟨is, path, hPath, hSimple⟩ := exists_simple_path hReach
    obtain ⟨j, hj⟩ := List.mem_iff_getElem?.1 hMem
    exact hDue.mem (.atEnd hPath hSimple hr hj (by simp [alive, hl, hAlive]) (.heard hl))
  · have hYields : n.Yields _ _ := yieldsDue n hPassive n (.announce s message) [] (.refl n) hMarks
    obtain ⟨new, hAfter, hTraces⟩ := hYields
    refine ⟨new, hAfter, hTraces.congr fun is x => ?_⟩
    simp only [Called, told_iff_dueFrom, Nat.zero_add]
    constructor
    · rintro ⟨it, hr, j, t, js, hIs, hj, hAlive, hDue⟩
      exact ⟨it, j, t, js, hr, hIs, hj, hAlive, hDue⟩
    · rintro ⟨it, j, t, js, hr, hIs, hj, hAlive, hDue⟩
      exact ⟨it, hr, j, t, js, hIs, hj, hAlive, hDue⟩

/-- Two reporters registered with each other, and a listener with each of them. -/
def ring : Network where
  reporters := [⟨1, "Left", [.listener 0, .reporter 1], false, true, 0⟩,
    ⟨2, "Right", [.reporter 0, .listener 1], false, true, 0⟩]
  listeners := [⟨"l", [], true, true, 0⟩, ⟨"r", [], false, true, 0⟩]

/-- In the ring, the event gets to the other side and is dropped where it comes back. -/
theorem passive_fanout_around_ring :
    ring.Passive ∧ (∀ it ∈ ring.reporters, it.reemitting = false) ∧
      ∃ new, ring.pass 0 ⟨7, "Far", some "smoke"⟩ = ring.said new ∧
        .heard "r" ⟨2, "Right", some "smoke"⟩ ∈ new ∧
        .noticed (.loopedBack "Left" "Right") ∈ new := by
  have hPassive : ring.Passive := by decide
  have hClear : ∀ it ∈ ring.reporters, it.reemitting = false := by decide
  refine ⟨hPassive, hClear, ?_⟩
  obtain ⟨new, hPass, hTraces, hReached⟩ :=
    (passive_fanout_along_simple_paths ring hPassive hClear 0).1 ⟨7, "Far", some "smoke"⟩
  have hLeads : ring.Leads 0 1 := ⟨_, rfl, by decide, by decide⟩
  have hPath : ring.Path 0 [1] [0, 1] 1 := .there rfl rfl (by decide) (.here 1)
  refine ⟨new, hPass, ?_, ?_⟩
  · exact hReached 1 _ 1 _ (.single hLeads) rfl (by decide) rfl (by decide)
  · have hLeft : ring.reporters[0]? = some ⟨1, "Left", [.listener 0, .reporter 1], false, true, 0⟩ := rfl
    have hBack : 0 ∈ [0, 1] := by decide
    exact hTraces.mem (.atEnd (j := 0) hPath (by decide) rfl rfl (by decide)
      (.loopedBack hLeft hBack))

end Breadboard.Network
