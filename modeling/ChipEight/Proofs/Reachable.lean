import ChipEight.Proofs.RoundTrip
import ChipEight.Proofs.Step
import ChipEight.Rig

/-!
# Reachable rigs

A rig is reachable if its machine was built with some rate and dialect and has been through host
requests since. The host may ask for anything that hands over no state: bytes are restored only if
they were saved from a reachable machine, be it this one or another, now or earlier. Random bytes
may come and run out at any time.

What every reachable machine has in common is shown by `Rig.Reachable.machine`: a predicate that
is `Machine.Kept` by each of the few things that can happen to a machine holds of all of them.
-/

namespace ChipEight

namespace Rig

/-! ## Histories -/

def after (r : Rig) : List Request → Rig
  | [] => r
  | q :: qs => (r.apply q).rig.after qs

def replies (r : Rig) : List Request → List Reply
  | [] => []
  | q :: qs => (r.apply q).reply :: (r.apply q).rig.replies qs

/-- The replies and what was reported, each with the rig as it was left. -/
def responses (r : Rig) : List Request → List Response
  | [] => []
  | q :: qs => r.apply q :: (r.apply q).rig.responses qs

def log (r : Rig) : List Request → List Event
  | [] => []
  | q :: qs => (r.apply q).events ++ (r.apply q).rig.log qs

section Append
variable (r : Rig) (qs qs' : List Request)

/-- What comes to a rig in two parts comes to it one after the other. -/
theorem after_append : r.after (qs ++ qs') = (r.after qs).after qs' := by
  induction qs generalizing r with
  | nil => rfl
  | cons q qs ih => exact ih (r.apply q).rig

theorem replies_append : r.replies (qs ++ qs') = r.replies qs ++ (r.after qs).replies qs' := by
  induction qs generalizing r with
  | nil => rfl
  | cons q qs ih => exact congrArg ((r.apply q).reply :: ·) (ih (r.apply q).rig)

theorem log_append : r.log (qs ++ qs') = r.log qs ++ (r.after qs).log qs' := by
  induction qs generalizing r with
  | nil => rfl
  | cons q qs ih =>
    change (r.apply q).events ++ (r.apply q).rig.log (qs ++ qs') = _
    rw [ih, ← List.append_assoc]
    rfl

end Append

/-- The clock of a rig that has last accounted for the current reading. -/
def Current (r : Rig) : Prop :=
  r.machine.clock.lastReading = r.now

end Rig

/-! ## Reachable rigs -/

/-- Whether a request leaves the state of the machine to the machine: it restores no bytes and
does not hand the machine to a session. -/
def Request.IsPlain : Request → Prop
  | .restore _ | .drive .. => False
  | _ => True

/-- The rigs that a host can bring about without making up a state. -/
inductive Rig.Reachable : Rig → Prop where
  | start (rate : UInt32) (dialect : Dialect) (now : Reading) (entropy : List UInt8) :
    Reachable (.start rate dialect now entropy)
  | feed {r : Rig} (entropy : List UInt8) : Reachable r → Reachable { r with entropy }
  | apply {r : Rig} (q : Request) : Reachable r → q.IsPlain → Reachable (r.apply q).rig
  | restore {r s : Rig} :
    Reachable r → Reachable s → Reachable (r.apply (.restore s.machine.save)).rig

theorem Rig.Reachable.after {r : Rig} (h : r.Reachable) {qs : List Request}
    (hqs : ∀ q ∈ qs, q.IsPlain) : (r.after qs).Reachable := by
  induction qs generalizing r with
  | nil => exact h
  | cons q qs ih =>
    exact ih (h.apply q (hqs q (List.mem_cons_self))) fun p hp => hqs p (List.mem_cons_of_mem q hp)

/-! ## Loading -/

namespace Memory

theorem install_of_le (m : Memory) {program : Array UInt8} (h : program.size ≤ maxProgramSize) :
    m.install program = .ok ⟨tabulate fun a =>
      if a.val < programStart then m.bytes[a.val] else program.getD (a.val - programStart) 0⟩ :=
  if_pos h

theorem install_of_lt (m : Memory) {program : Array UInt8} (h : maxProgramSize < program.size) :
    m.install program = .error ⟨program.size⟩ :=
  if_neg (Nat.not_le.2 h)

end Memory

namespace Machine

/-- Loading a program that fits is resetting with that program in mind. -/
theorem load_of_le (m : Machine) (now : Reading) {program : Array UInt8}
    (h : program.size ≤ Memory.maxProgramSize) :
    m.load now program =
      .ok (({ m with program }.reset now).1, [.reset, .loaded program.size]) := by
  simp only [load, reset, Memory.install_of_le _ h]
  rfl

theorem load_of_lt (m : Machine) (now : Reading) {program : Array UInt8}
    (h : Memory.maxProgramSize < program.size) : m.load now program = .error ⟨program.size⟩ := by
  simp only [load, Memory.install_of_lt _ h]
  rfl

/-- The machine after a reset, whether or not the remembered program fits. -/
theorem reset_fst (m : Machine) (now : Reading) :
    (m.reset now).1 =
      { m with
        registers := .start m.registers.dialect
        clock := m.clock.reset now
        screen := m.screen.clear
        keypad := .idle
        memory := (Memory.blank.install m.program).toOption.getD .blank } := by
  unfold reset
  cases Memory.blank.install m.program <;> rfl

/-- A reset complains if the remembered program does not fit. -/
theorem reset_snd (m : Machine) (now : Reading) :
    (m.reset now).2 =
      match Memory.blank.install m.program with
      | .ok _ => [.reset]
      | .error cause => [.programLost cause, .reset] := by
  unfold reset
  cases Memory.blank.install m.program <;> rfl

end Machine

namespace Rig

theorem apply_load (r : Rig) (program : Array UInt8) :
    r.apply (.load program) =
      match r.machine.load r.now program with
      | .ok (machine, events) => ⟨.done, r.withMachine machine, events⟩
      | .error cause => r.quiet (.oversize cause) :=
  rfl

theorem apply_load_of_le (r : Rig) {program : Array UInt8}
    (h : program.size ≤ Memory.maxProgramSize) :
    r.apply (.load program) = ⟨.done, r.withMachine ({ r.machine with program }.reset r.now).1,
      [.reset, .loaded program.size]⟩ := by
  rw [apply_load, Machine.load_of_le _ _ h]

theorem apply_load_of_lt (r : Rig) {program : Array UInt8}
    (h : Memory.maxProgramSize < program.size) :
    r.apply (.load program) = r.quiet (.oversize ⟨program.size⟩) := by
  rw [apply_load, Machine.load_of_lt _ _ h]

theorem apply_reset (r : Rig) :
    r.apply .reset = ⟨.done, r.withMachine (r.machine.reset r.now).1, (r.machine.reset r.now).2⟩ :=
  rfl

/-- The answer to a step, field by field. -/
theorem apply_step (r : Rig) :
    r.apply .step =
      ⟨match (r.machine.step r.entropy).fault with
        | some fault => .fault fault
        | none => .done,
        { r with
          machine := (r.machine.step r.entropy).machine
          entropy := (r.machine.step r.entropy).entropy },
        (r.machine.step r.entropy).events⟩ :=
  rfl

theorem apply_run (r : Rig) (n : Nat) :
    r.apply (.run n) =
      ⟨.ran (r.machine.run r.entropy n).completed (r.machine.run r.entropy n).fault,
        r.afterRun (r.machine.run r.entropy n), (r.machine.run r.entropy n).events.toList⟩ :=
  rfl

/-- The answer to an update, field by field. -/
theorem apply_update (r : Rig) :
    r.apply .update =
      ⟨match (r.machine.update r.now r.entropy).fault with
        | some fault => .fault fault
        | none => .count (r.machine.update r.now r.entropy).completed,
        r.afterRun (r.machine.update r.now r.entropy),
        (r.machine.update r.now r.entropy).events.toList⟩ :=
  rfl

/-- The answer to driving a machine, by the scripted session that it is. -/
theorem apply_drive (r : Rig) (maxSteps : UInt64) (deltas : List Nat) (recorder : Recorder) :
    r.apply (.drive maxSteps deltas recorder) =
      let outcome := (Script.start r.machine maxSteps r.entropy recorder).run deltas
      ⟨.drove outcome.2 outcome.1.session.executed outcome.1.recorder,
        { r with
          machine := outcome.1.session.machine.attach r.now
          entropy := outcome.1.entropy },
        outcome.1.events.toList⟩ :=
  rfl

/-- A handle reaches the keypad, if anything. -/
theorem throughHandle_machine {P : Machine → Prop} (r : Rig) (handle : Handle)
    (change : Keypad → Keypad) (h : ∀ keypad, P { r.machine with keypad }) :
    P (r.throughHandle handle change).machine := by
  unfold throughHandle
  split
  · exact h _
  · exact h r.machine.keypad

/-- Bytes that can be read replace the machine and its keypad. -/
theorem apply_restore_of_ok (r : Rig) {bytes : List UInt8} {machine : Machine}
    (h : Machine.restore r.now bytes = .ok machine) :
    r.apply (.restore bytes) = { r with machine, keypad := r.keypad + 1 }.quiet .done := by
  unfold apply
  -- the reader is not to be run on bytes that are not there
  generalize Machine.restore r.now = read at h ⊢
  simp only [h]

theorem apply_restore_of_error (r : Rig) {bytes : List UInt8} {cause : Snapshot.Malformed}
    (h : Machine.restore r.now bytes = .error cause) :
    r.apply (.restore bytes) = r.quiet (.malformed cause) := by
  unfold apply
  generalize Machine.restore r.now = read at h ⊢
  simp only [h]

/-- Restoring a saved machine puts the machine of its snapshot in place. -/
theorem apply_restore_save (r : Rig) {m : Machine}
    (h : m.program.size ≤ Memory.maxProgramSize) :
    r.apply (.restore m.save) =
      { r with machine := m.snapshot.machine r.now, keypad := r.keypad + 1 }.quiet .done :=
  r.apply_restore_of_ok (Machine.restore_save r.now (Nat.lt_of_le_of_lt h (by decide)))

end Rig

/-! ## What every reachable machine has in common -/

/-- What every step keeps, every run keeps. -/
theorem Run.steps_machine {P : Machine → Prop}
    (hstep : ∀ m entropy, P m → P (m.step entropy).machine) (n : Nat) {r : Run}
    (h : P r.machine) : P (r.steps n).machine := by
  induction n generalizing r with
  | zero => exact h
  | succ n ih =>
    unfold steps
    split
    · exact h
    · exact ih (hstep _ _ h)

/-- A predicate that holds of new machines and is kept by all that can happen to a machine. -/
structure Machine.Kept (P : Machine → Prop) : Prop where
  fresh : ∀ rate dialect now, P (.fresh rate dialect now)
  reset : ∀ {m : Machine} now program, program.size ≤ Memory.maxProgramSize → P m →
    P ({ m with program }.reset now).1
  keypad : ∀ {m : Machine} k, P m → P { m with keypad := k }
  step : ∀ {m : Machine} entropy, P m → P (m.step entropy).machine
  attach : ∀ {m : Machine} now, P m → P (m.attach now)
  advance : ∀ {m : Machine} now, P m → P { m with clock := m.clock.advance now }
  resetClock : ∀ {m : Machine} now, P m → P { m with clock := m.clock.reset now }
  tick : ∀ {m : Machine} n, P m → P { m with clock := m.clock.tick n }
  displayFrame : ∀ {m : Machine}, P m → P m.displayFrame.2
  restore : ∀ {m : Machine} now, P m → P (m.snapshot.machine now)

namespace Machine.Kept

variable {P : Machine → Prop} (hP : Machine.Kept P)

include hP

theorem run {m : Machine} (entropy : List UInt8) (n : Nat) (h : P m) :
    P (m.run entropy n).machine :=
  Run.steps_machine (fun _ entropy => hP.step entropy) n h

theorem update {m : Machine} (now : Reading) (entropy : List UInt8) (h : P m) :
    P (m.update now entropy).machine :=
  hP.run entropy _ (hP.advance now h)

/-- What is kept by all that can happen to a machine is kept by every request that hands over no
state. -/
theorem apply {r : Rig} (q : Request) (hq : q.IsPlain) (h : P r.machine)
    (hfits : r.machine.program.size ≤ Memory.maxProgramSize) : P (r.apply q).rig.machine := by
  cases q with
  | load program =>
    by_cases hle : program.size ≤ Memory.maxProgramSize
    · rw [r.apply_load_of_le hle]
      exact hP.reset r.now program hle h
    · rw [r.apply_load_of_lt (Nat.not_le.1 hle)]
      exact h
  | reset => exact hP.reset r.now r.machine.program hfits h
  | press code => exact hP.keypad _ h
  | release code => exact hP.keypad _ h
  | pressBy handle code => exact r.throughHandle_machine handle _ fun k => hP.keypad k h
  | releaseBy handle code => exact r.throughHandle_machine handle _ fun k => hP.keypad k h
  | isHeld code => exact h
  | step => exact hP.step r.entropy h
  | run n => exact hP.run r.entropy n h
  | update => exact hP.update r.now r.entropy h
  | wait nanos => exact h
  | attach start => exact hP.attach start h
  | advanceClock => exact hP.advance r.now h
  | resetClock => exact hP.resetClock r.now h
  | tick n => exact hP.tick n h
  | displayFrame => exact hP.displayFrame h
  | debugFrame => exact h
  | beginWait => exact hP.keypad _ h
  | takePress => exact hP.keypad _ h
  | releaseAll => exact hP.keypad _ h
  | save => exact h
  | restore bytes => exact hq.elim
  | drive maxSteps deltas recorder => exact hq.elim

end Machine.Kept

/-- Machines remember only programs that fit. -/
theorem Machine.kept_program_fits :
    Machine.Kept fun m => m.program.size ≤ Memory.maxProgramSize where
  fresh _ _ _ := Nat.zero_le _
  reset now program hle _ := by
    rw [reset_fst]
    exact hle
  keypad _ h := h
  step entropy h := by
    rw [program_step]
    exact h
  attach _ h := h
  advance _ h := h
  resetClock _ h := h
  tick _ h := h
  displayFrame h := h
  restore _ h := h

namespace Rig.Reachable

/-- Reachable machines remember only programs that fit. -/
theorem program_fits {r : Rig} (h : r.Reachable) :
    r.machine.program.size ≤ Memory.maxProgramSize := by
  induction h with
  | start => exact Nat.zero_le _
  | feed _ _ ih => exact ih
  | apply q _ hq ih => exact Machine.kept_program_fits.apply q hq ih ih
  | restore _ _ ihr ihs =>
    rw [apply_restore_save _ ihs]
    exact ihs

/-- What new machines have and every operation keeps, all reachable machines have. -/
theorem machine {P : Machine → Prop} (hP : Machine.Kept P) {r : Rig} (h : r.Reachable) :
    P r.machine := by
  induction h with
  | start rate dialect now => exact hP.fresh rate dialect now
  | feed _ _ ih => exact ih
  | apply q hr hq ih => exact hP.apply q hq ih hr.program_fits
  | restore hr hs _ ihs =>
    rw [apply_restore_save _ hs.program_fits]
    exact hP.restore _ ihs

end Rig.Reachable
end ChipEight
