import Breadboard.Proofs.Bench.Commands
import Breadboard.Proofs.Network.Machine

/-!
# Breadboard — fan-out ends and takes its marks back

A reporter that is marked is deaf: what it is told it drops. So a mark that stayed behind would
silence it for good. None does (`fanout_ends_with_marks_restored`). Whatever the registrations,
scripts and marks are, sending a message and telling a reporter are done after finitely many steps
with every mark as it was before, and since no other command touches a mark and new reporters come
without one, a bench on which everything was made by commands has no mark set between commands.
-/

namespace Breadboard.Bench

/-- The reporters of `b` have the marks that they had, and those that `b'` has more have none. -/
def KeepsMarks (b b' : Bench) : Prop :=
  ∃ k, b'.network.marks = b.network.marks ++ List.replicate k false

section KeepsMarks

variable {b b' b'' : Bench}

theorem KeepsMarks.of_eq (h : b'.network.marks = b.network.marks) : KeepsMarks b b' :=
  ⟨0, by simp [h]⟩

/-- What is kept twice is kept. -/
theorem KeepsMarks.trans (h : KeepsMarks b b') (h' : KeepsMarks b' b'') : KeepsMarks b b'' := by
  obtain ⟨k, hk⟩ := h
  obtain ⟨k', hk'⟩ := h'
  exact ⟨k + k', by rw [hk', hk, List.append_assoc, List.replicate_append_replicate]⟩

/-- A new reporter has no mark. -/
theorem keepsMarks_addReporter (b : Bench) (name : String) : KeepsMarks b (b.addReporter name).2 :=
  ⟨1, by simp [addReporter, takeId, withNetwork, Network.marks]⟩

/-- **No move leaves a mark behind or takes one away.** -/
theorem Move.keepsMarks {e : Option Effect} (h : Move b e b') : KeepsMarks b b' := by
  cases h with
  | network hAbides => exact .of_eq hAbides.marks
  | reporter name => exact keepsMarks_addReporter b name
  -- a part comes with a reporter of its own
  | @build _ gate => exact keepsMarks_addReporter { b with board := _ } gate.name
  | @wire gate => exact keepsMarks_addReporter b gate.name
  | _ => exact .of_eq rfl

/-- So no moves do. -/
theorem Moves.keepsMarks {es : List Effect} (h : Moves es b b') : KeepsMarks b b' := by
  induction h with
  | refl => exact .of_eq rfl
  | next _ hMove ih => exact ih.trans hMove.keepsMarks

/-- Nor does any run of commands. -/
theorem keepsMarks_runAll (b : Bench) (cs : List Command) : KeepsMarks b (b.runAll cs) := by
  refine runAll_induction (P := KeepsMarks b) (fun b' c hb => ?_) (.of_eq rfl) cs
  obtain ⟨es, hMoves, -⟩ := exists_moves_run b' c
  exact hb.trans hMoves.keepsMarks

end KeepsMarks

/--
**Fan-out ends, and leaves no reporter deaf.** Whatever is registered with whom, whatever the scripts
of the listeners say and whichever reporters are marked,

* having a reporter send a message, or word that the trouble is over, takes finitely many steps, no
  breakdown gets out, and all marks are as before;
* so does telling a reporter of an event;
* a sequence of commands keeps the marks of all reporters that were there, and sets none on those
  that it makes;
* so if all reporters were made by commands, none is marked between one command and the next.
-/
theorem fanout_ends_with_marks_restored :
    (∀ (n : Network) (r : ReporterId) (message : Option String),
      Network.Machine.Runs (.start n (.announce r message)) (.done (n.announce r message)) ∧
      (n.announce r message).marks = n.marks) ∧
    (∀ (n : Network) (r : ReporterId) (e : Event),
      Network.Machine.Runs (.start n (.tell (.reporter r) e)) (.done (n.pass r e)) ∧
      (n.pass r e).marks = n.marks) ∧
    (∀ (b : Bench) (cs : List Command),
      ∃ k, (b.runAll cs).network.marks = b.network.marks ++ List.replicate k false) ∧
    (∀ (catalog : Catalog) (cs : List Command),
      ∀ it ∈ (runAll { catalog } cs).network.reporters, it.reemitting = false) := by
  refine ⟨fun n r message => ?_, fun n r e => ?_, keepsMarks_runAll, fun catalog cs => ?_⟩
  · exact ⟨Network.runs_task n (.announce r message) [], Network.marks_after n _⟩
  · exact ⟨Network.runs_task n (.tell (.reporter r) e) [], Network.marks_after n _⟩
  · obtain ⟨k, hk⟩ := keepsMarks_runAll { catalog } cs
    intro it hit
    have hMark : it.reemitting ∈ (runAll { catalog } cs).network.marks := List.mem_map_of_mem hit
    rw [hk] at hMark
    -- the bench starts without reporters
    rw [Network.marks, List.map_nil, List.nil_append] at hMark
    exact List.eq_of_mem_replicate hMark

end Breadboard.Bench
