import ChipEight.Proofs.Reachable

/-!
# Histories

A reachable rig has come about by some history: a new machine, random bytes that were handed in,
requests, and states restored that machines with histories of their own had saved. What a machine
has been through is told from its history, so that what is left of it in the machine can be said
(`History.program_rig`: the program that was loaded last, whatever came after).
-/

namespace ChipEight

/-- How a rig has come about. -/
inductive History where
  | start (rate : UInt32) (dialect : Dialect) (now : Reading) (entropy : List UInt8)
  | feed (past : History) (entropy : List UInt8)
  | ask (past : History) (q : Request) (hq : q.IsPlain)
  | restore (past saved : History)

namespace History

def rig : History → Rig
  | start rate dialect now entropy => .start rate dialect now entropy
  | feed past entropy => { past.rig with entropy }
  | ask past q _ => (past.rig.apply q).rig
  | restore past saved => (past.rig.apply (.restore saved.rig.machine.save)).rig

theorem reachable (h : History) : h.rig.Reachable := by
  induction h with
  | start rate dialect now entropy => exact .start rate dialect now entropy
  | feed past entropy ih => exact .feed entropy ih
  | ask past q hq ih => exact .apply q ih hq
  | restore past saved ihp ihs => exact .restore ihp ihs

/-- Reachable rigs are those with a history. -/
theorem exists_rig_eq_iff {r : Rig} : (∃ h : History, h.rig = r) ↔ r.Reachable := by
  constructor
  · rintro ⟨h, rfl⟩
    exact h.reachable
  · intro h
    induction h with
    | start rate dialect now entropy => exact ⟨start rate dialect now entropy, rfl⟩
    | feed entropy _ ih =>
      obtain ⟨past, rfl⟩ := ih
      exact ⟨past.feed entropy, rfl⟩
    | apply q _ hq ih =>
      obtain ⟨past, rfl⟩ := ih
      exact ⟨past.ask q hq, rfl⟩
    | restore _ _ ihr ihs =>
      obtain ⟨past, rfl⟩ := ihr
      obtain ⟨saved, rfl⟩ := ihs
      exact ⟨past.restore saved, rfl⟩

theorem machine_restore (past saved : History) :
    (past.restore saved).rig.machine = saved.rig.machine.snapshot.machine past.rig.now :=
  congrArg (·.rig.machine) (past.rig.apply_restore_save saved.reachable.program_fits)

end History

/-! ## Starting afresh -/

/-- Whether a request puts the machine in its power-on state. -/
def Request.restarts : Request → Bool
  | .load program => program.size ≤ Memory.maxProgramSize
  | .reset => true
  | _ => false

/-- A request that restarts a machine is a reset with some program in mind. -/
theorem Rig.apply_of_restarts (r : Rig) {q : Request} (h : q.restarts = true) :
    ∃ program, (r.apply q).rig = r.withMachine ({ r.machine with program }.reset r.now).1 := by
  cases q with
  | load program =>
    rw [r.apply_load_of_le (of_decide_eq_true h)]
    exact ⟨program, rfl⟩
  | reset => exact ⟨r.machine.program, rfl⟩
  | _ => cases h

/-! ## The program that was loaded last -/

/-- The program that was loaded last once a request is answered, from the one before. -/
def Request.lastLoaded (before : Array UInt8) : Request → Array UInt8
  | .load program => if program.size ≤ Memory.maxProgramSize then program else before
  | _ => before

/-- The last program that was loaded and did fit; none is the same as an empty one. What is
restored brings its own with it. -/
def History.lastLoaded : History → Array UInt8
  | start .. => #[]
  | feed past _ => past.lastLoaded
  | ask past q _ => q.lastLoaded past.lastLoaded
  | restore _ saved => saved.lastLoaded

theorem Run.program_steps (n : Nat) (r : Run) :
    (r.steps n).machine.program = r.machine.program :=
  steps_machine (P := fun m => m.program = r.machine.program)
    (fun m entropy h => (m.program_step entropy).trans h) n rfl

namespace Rig

/-- A program that fits is remembered; after any other the one before it still is. -/
theorem program_load (r : Rig) (program : Array UInt8) :
    (r.apply (.load program)).rig.machine.program =
      if program.size ≤ Memory.maxProgramSize then program else r.machine.program := by
  split
  · next hle =>
    rw [r.apply_load_of_le hle]
    exact congrArg Machine.program (Machine.reset_fst _ _)
  · next hlt => rw [r.apply_load_of_lt (Nat.not_le.1 hlt), quiet]

/-- Of all plain requests only loading changes the program that is remembered. -/
theorem program_apply (r : Rig) {q : Request} (hq : q.IsPlain) :
    (r.apply q).rig.machine.program = q.lastLoaded r.machine.program := by
  cases q with
  | load program => exact r.program_load program
  | reset =>
    change (r.machine.reset r.now).1.program = r.machine.program
    rw [Machine.reset_fst]
  | pressBy handle code | releaseBy handle code =>
    exact r.throughHandle_machine (P := fun m => m.program = r.machine.program) handle _
      fun _ => rfl
  | step => exact r.machine.program_step r.entropy
  | run n => exact Run.program_steps n _
  | update => exact Run.program_steps _ _
  | restore bytes | drive maxSteps deltas recorder => exact hq.elim
  | _ => rfl

end Rig

/-- The remembered program is the last one that was loaded. -/
theorem History.program_rig (h : History) : h.rig.machine.program = h.lastLoaded := by
  induction h with
  | start rate dialect now entropy => rfl
  | feed past entropy ih => exact ih
  | ask past q hq ih =>
    unfold rig lastLoaded
    rw [past.rig.program_apply hq, ih]
  | restore past saved _ ih =>
    rw [machine_restore]
    exact ih

end ChipEight
