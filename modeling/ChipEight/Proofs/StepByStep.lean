import ChipEight.Proofs.Halting

/-!
# Step by step

A host that asks for a run of `n` steps might have asked for single steps, one after the other up
to the first that faults: it would have been told the same and have the same rig
(`Rig.run_eq_steps`). In a sound machine only a halt ends a run early, and a machine that has halted
is not changed by further steps. There a run of `n` steps leaves what `n` single steps leave
(`Rig.run_eq_replicate_step`), and an update does, step by step, what its clock grants.
-/

namespace ChipEight

namespace Run

/-- The steps that were begun: those that were carried out, and the one that faulted. -/
def begun (r : Run) : Nat :=
  r.completed + if r.fault.isSome then 1 else 0

/-- What a host is told that asks for the steps of a run one by one. -/
def stepReplies (r : Run) : List Reply :=
  .replicate r.completed .done ++ (r.fault.map Reply.fault).toList

theorem completed_step_eq (r : Run) :
    r.step.completed = if r.step.fault.isNone then r.completed + 1 else r.completed :=
  rfl

theorem begun_of_fault_eq_none {r : Run} (h : r.fault = none) : r.begun = r.completed := by
  unfold begun
  rw [h]
  rfl

/-- A run that has not faulted begins one more step. -/
theorem begun_step {r : Run} (h : r.fault = none) : r.step.begun = r.begun + 1 := by
  rw [begun_of_fault_eq_none h]
  unfold begun
  rw [completed_step_eq]
  cases r.step.fault <;> rfl

/-- The reply to one more step. -/
theorem stepReplies_step {r : Run} (h : r.fault = none) :
    r.step.stepReplies = r.stepReplies ++ [match r.step.fault with
      | some fault => .fault fault
      | none => .done] := by
  unfold stepReplies
  rw [completed_step_eq, h]
  cases r.step.fault with
  | none => simp [List.replicate_succ']
  | some fault => simp

/-- Of the steps that are asked for at most all are begun. -/
theorem begun_steps_le (n : Nat) (r : Run) : (r.steps n).begun ≤ r.begun + n := by
  induction n generalizing r with
  | zero => exact Nat.le_refl _
  | succ n ih =>
    rw [steps_succ]
    split
    · exact Nat.le_add_right ..
    · next hf =>
      have hrest := ih r.step
      rw [begun_step (Option.not_isSome_iff_eq_none.1 hf)] at hrest
      omega

theorem begun_of_fault_eq_some {r : Run} {fault : Fault} (h : r.fault = some fault) :
    r.begun = r.completed + 1 := by
  unfold begun
  rw [h]
  rfl

/-- A run of a sound machine that faults has found the machine halted. -/
theorem halted_of_fault {n : Nat} {r : Run} (h : r.machine.Sound) (hnone : r.fault = none)
    (hfault : (r.steps n).fault ≠ none) :
    (r.steps n).machine.HasHalted ∧
      (r.steps n).fault = some (.halted (r.steps n).machine.registers.pc) := by
  rcases exists_hasHalted_of_fault n h hnone hfault with ⟨j, hj, hnone', hhalt⟩
  have hlast : r.steps n = (r.steps j).step := by
    calc r.steps n
        = r.steps (j + (n - j)) := by rw [Nat.add_sub_cancel' (Nat.le_of_lt hj)]
      _ = (r.steps j).steps (n - j) := steps_add ..
      _ = (r.steps j).step := steps_of_hasHalted hhalt hnone' (Nat.sub_pos_of_lt hj)
  rw [hlast, step_of_hasHalted hhalt]
  exact ⟨hhalt, rfl⟩

end Run

namespace Rig

/-! ## Up to the first fault -/

/-- The run is what single steps from the rig, as many as it has begun, come to. -/
structure Stepped (r : Rig) (run : Run) : Prop where
  rig : r.after (.replicate run.begun .step) = r.afterRun run
  replies : r.replies (.replicate run.begun .step) = run.stepReplies
  log : r.log (.replicate run.begun .step) = run.events.toList

theorem Stepped.start (r : Rig) : r.Stepped (.start r.machine r.entropy) :=
  ⟨rfl, rfl, rfl⟩

/-- A run that has not faulted goes on by a step as its rig does. -/
theorem Stepped.step {r : Rig} {run : Run} (h : r.Stepped run) (hfault : run.fault = none) :
    r.Stepped run.step := by
  have hbegun : List.replicate run.step.begun Request.step =
      .replicate run.begun .step ++ [.step] := by
    rw [Run.begun_step hfault, List.replicate_succ']
  refine ⟨?_, ?_, ?_⟩
  · rw [hbegun, after_append, h.rig]
    rfl
  · rw [hbegun, replies_append, h.rig, h.replies, Run.stepReplies_step hfault]
    rfl
  · rw [hbegun, log_append, h.rig, h.log, Run.events_step]
    exact congrArg (run.events.toList ++ ·) (List.append_nil _)

/-- A run goes on as its rig does in single steps, up to the first fault. -/
theorem Stepped.steps (n : Nat) {r : Rig} {run : Run} (h : r.Stepped run) :
    r.Stepped (run.steps n) := by
  induction n generalizing run with
  | zero => exact h
  | succ n ih =>
    rw [Run.steps_succ]
    split
    · exact h
    · next hf => exact ih (h.step (Option.not_isSome_iff_eq_none.1 hf))

/-- **Step by step.** A run of up to `n` steps leaves the rig that single steps leave, one after
the other up to the first that faults. They are `n` unless one does. The host is told of as many
steps as the run says were carried out and then of its fault, and the log is the same. -/
theorem run_eq_steps (r : Rig) (n : Nat) :
    let run := r.machine.run r.entropy n
    let steps := List.replicate run.begun Request.step
    run.begun ≤ n ∧ (run.fault = none → run.begun = n) ∧
      (r.apply (.run n)).rig = r.after steps ∧
      (r.apply (.run n)).reply = .ran run.completed run.fault ∧
      r.replies steps = .replicate run.completed .done ++ (run.fault.map Reply.fault).toList ∧
      (r.apply (.run n)).events = r.log steps := by
  intro run steps
  have h : r.Stepped run := (Stepped.start r).steps n
  refine ⟨?_, ?_, h.rig.symm, rfl, h.replies, h.log.symm⟩
  · exact Nat.le_trans (Run.begun_steps_le n _) (Nat.le_of_eq (Nat.zero_add n))
  · intro hnone
    rw [Run.begun_of_fault_eq_none hnone]
    exact (Run.completed_of_fault_eq_none n hnone).trans (Nat.zero_add n)

/-! ## Past the first fault -/

/-- A machine that has halted answers every further step alike and stays as it is. -/
theorem steps_of_hasHalted {r : Rig} (h : r.machine.HasHalted) (k : Nat) :
    r.after (.replicate k .step) = r ∧
      r.replies (.replicate k .step) =
        .replicate k (.fault (.halted r.machine.registers.pc)) := by
  induction k with
  | zero => exact ⟨rfl, rfl⟩
  | succ k ih =>
    have hstep := apply_step_of_hasHalted h
    refine ⟨?_, ?_⟩
    · change (r.apply .step).rig.after (.replicate k .step) = r
      rw [hstep]
      exact ih.1
    · change (r.apply .step).reply :: (r.apply .step).rig.replies (.replicate k .step) = _
      rw [hstep, ih.2]
      rfl

/-- A run of `n` steps of a sound machine leaves what `n` single steps leave. Those that the run
carries out are answered, and all others are told that the machine has halted. -/
theorem run_eq_replicate_step {r : Rig} (h : r.machine.Sound) (n : Nat) :
    let run := r.machine.run r.entropy n
    (r.apply (.run n)).rig = r.after (.replicate n .step) ∧
      r.replies (.replicate n .step) =
        .replicate run.completed .done ++
          .replicate (n - run.completed) (.fault (.halted run.machine.registers.pc)) := by
  intro run
  rcases r.run_eq_steps n with ⟨hle, hall, hrig, -, hreplies, -⟩
  have hsplit : List.replicate n Request.step =
      .replicate run.begun .step ++ .replicate (n - run.begun) .step := by
    rw [List.replicate_append_replicate, Nat.add_sub_cancel' hle]
  have hafter : r.after (.replicate run.begun .step) = r.afterRun run := hrig.symm
  rw [hsplit, after_append, replies_append, hreplies, hafter]
  by_cases hfault : run.fault = none
  · have hbegun : run.begun = n := hall hfault
    have hcompleted : run.completed = n := (Run.begun_of_fault_eq_none hfault).symm.trans hbegun
    rw [hbegun, hfault, hcompleted, Nat.sub_self]
    exact ⟨rfl, List.append_assoc ..⟩
  · -- the last step of the run has found the machine halted, and so does each after it
    rcases Run.halted_of_fault (r := .start r.machine r.entropy) h rfl hfault with
      ⟨hhalt, hcause⟩
    have hbegun : run.begun = run.completed + 1 := Run.begun_of_fault_eq_some hcause
    have hrest : n - run.completed = n - run.begun + 1 := by
      have : run.begun ≤ n := hle
      omega
    rcases steps_of_hasHalted (r := r.afterRun run) hhalt (n - run.begun) with ⟨hsame, hfaults⟩
    refine ⟨hsame.symm, ?_⟩
    rw [hfaults, show run.fault = _ from hcause, hrest, List.append_assoc]
    rfl

/-- An update of a sound machine accounts for the time and carries out, one by one, the steps that
are due. -/
theorem update_eq_replicate_step {r : Rig} (h : r.machine.Sound) :
    (r.apply .update).rig =
      (r.apply .advanceClock).rig.after
        (.replicate (r.machine.clock.stepsDue r.now) .step) :=
  (run_eq_replicate_step (r := (r.apply .advanceClock).rig)
    (Machine.kept_sound.advance r.now h) _).1

end Rig
end ChipEight
