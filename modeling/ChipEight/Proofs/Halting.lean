import ChipEight.Proofs.CleanSlate

/-!
# Halting

A machine whose program counter has left program memory has halted. A step then fails and does
nothing else, so an update that comes to it halfway leaves what its first steps have made, and its
clock has counted the time all the same: the steps that are dropped are not made up for later.
Nothing that starts no program gets the machine going again (`Bench.Halted.run`), not even saving
its state and restoring it, since what is saved has halted too (`Rig.Reachable.halting`).
-/

namespace ChipEight

namespace Machine

/-- The program counter has left program memory. -/
def HasHalted (m : Machine) : Prop :=
  ¬(0x200 ≤ m.registers.pc.toNat ∧ m.registers.pc.toNat ≤ 0xFFE)

theorem hasHalted_iff {m : Machine} : m.HasHalted ↔ fetchable m.registers.pc = false := by
  unfold HasHalted
  rw [← fetchable_iff, Bool.not_eq_true]

end Machine

/-! ## Runs that halt -/

namespace Run

variable {r : Run} (h : r.machine.HasHalted)

include h in
/-- A step of a machine that has halted faults and does nothing else. -/
theorem step_of_hasHalted :
    r.step = { r with
      events := r.events ++ [Event.outOfBounds r.machine.registers.pc]
      fault := some (.halted r.machine.registers.pc) } := by
  unfold step
  simp only [Machine.step_of_not_fetchable (Machine.hasHalted_iff.1 h)]
  rfl

include h in
/-- The steps that a run still has to go when the machine halts are dropped. -/
theorem steps_of_hasHalted (hfault : r.fault = none) {k : Nat} (hk : 0 < k) :
    r.steps k = r.step := by
  cases k with
  | zero => exact absurd hk (Nat.lt_irrefl 0)
  | succ k =>
    have hnone : ¬ r.fault.isSome = true := by simp [hfault]
    rw [steps_succ, if_neg hnone]
    exact steps_of_fault (by rw [step_of_hasHalted h]; rfl) k

/-- A run of a sound machine that faults has halted on the way. -/
theorem exists_hasHalted_of_fault (n : Nat) {r : Run} (h : r.machine.Sound) (hnone : r.fault = none)
    (hfault : (r.steps n).fault ≠ none) :
    ∃ j < n, (r.steps j).fault = none ∧ (r.steps j).machine.HasHalted := by
  induction n generalizing r with
  | zero => exact absurd hnone hfault
  | succ n ih =>
    by_cases hhalt : r.machine.HasHalted
    · exact ⟨0, Nat.succ_pos n, hnone, hhalt⟩
    · have hsucc : ∀ k, r.steps (k + 1) = r.step.steps k := by
        intro k
        rw [steps_succ, hnone]
        rfl
      have hstep : r.step.fault = none := by
        rw [Machine.hasHalted_iff, Bool.not_eq_false] at hhalt
        exact (h.fault_step r.entropy).trans (if_pos hhalt)
      rw [hsucc] at hfault
      rcases ih (Machine.step_sound r.entropy h) hstep hfault with ⟨j, hj, hrun⟩
      exact ⟨j + 1, Nat.succ_lt_succ hj, hsucc j ▸ hrun⟩

end Run

/-! ## Updates that halt -/

namespace Rig

/-- The first `j` steps of an update, which come after the ticks. -/
def updateRun (r : Rig) (j : Nat) : Run :=
  { r.machine with clock := r.machine.clock.advance r.now }.run r.entropy j

theorem update_eq_updateRun (r : Rig) :
    r.machine.update r.now r.entropy = r.updateRun (r.machine.clock.stepsDue r.now) :=
  rfl

theorem updateRun_clock (r : Rig) (j : Nat) : ∃ delay sound, (r.updateRun j).machine.clock =
    { r.machine.clock.advance r.now with delay, sound } :=
  Run.clock_steps _ _

section

variable {r : Rig} {j : Nat} (hj : j < r.machine.clock.stepsDue r.now)
  (hfault : (r.updateRun j).fault = none) (hhalt : (r.updateRun j).machine.HasHalted)

include hj hfault hhalt

/-- An update that halts on the way ends there, with what its first steps have made. -/
theorem update_of_hasHalted :
    r.machine.update r.now r.entropy = { r.updateRun j with
      events := (r.updateRun j).events ++
        [Event.outOfBounds (r.updateRun j).machine.registers.pc]
      fault := some (.halted (r.updateRun j).machine.registers.pc) } := by
  have hsum : r.machine.clock.stepsDue r.now = j + (r.machine.clock.stepsDue r.now - j) := by omega
  calc r.machine.update r.now r.entropy
      = r.updateRun (j + (r.machine.clock.stepsDue r.now - j)) := by
        rw [update_eq_updateRun, ← hsum]
    _ = (r.updateRun j).steps (r.machine.clock.stepsDue r.now - j) := Run.steps_add ..
    _ = (r.updateRun j).step := Run.steps_of_hasHalted hhalt hfault (by omega)
    _ = _ := Run.step_of_hasHalted hhalt

theorem apply_update_of_hasHalted :
    (r.apply .update).reply = .fault (.halted (r.updateRun j).machine.registers.pc) ∧
      (r.apply .update).rig =
        { r with machine := (r.updateRun j).machine, entropy := (r.updateRun j).entropy } := by
  rw [apply_update, update_of_hasHalted hj hfault hhalt]
  exact ⟨rfl, rfl⟩

end

/-- The clock has counted the whole time of an update however far the steps have come. -/
theorem Reachable.keeps_updateRun {r : Rig} (h : r.Reachable) (j : Nat) :
    Clock.Keeps r.machine.clock (r.machine.clock.elapsed r.now) (r.updateRun j).machine.clock
      (r.machine.clock.stepsDue r.now) := by
  have hkeeps := Clock.advance_keeps h.sound.clock r.now
  rcases r.updateRun_clock j with ⟨delay, sound, hclock⟩
  rw [hclock]
  exact ⟨hkeeps.rate, hkeeps.steps, hkeeps.cpuDebt, hkeeps.timerDebt⟩

theorem lastReading_updateRun (r : Rig) (j : Nat) :
    (r.updateRun j).machine.clock.lastReading = r.now := by
  rcases r.updateRun_clock j with ⟨delay, sound, hclock⟩
  rw [hclock]
  rfl

theorem Reachable.sound_advance {r : Rig} (h : r.Reachable) :
    Machine.Sound { r.machine with clock := r.machine.clock.advance r.now } :=
  Machine.kept_sound.advance r.now h.sound

/-- The steps of an update are granted once: from the clock that has come to any of them, later
calls grant only what the whole time makes due beyond the update. -/
theorem Reachable.granted_updateRun {r : Rig} (h : r.Reachable) (j : Nat)
    (calls : List Clock.Call) :
    r.machine.clock.stepsDue r.now + (r.updateRun j).machine.clock.granted calls =
      r.machine.clock.stepsIn (r.machine.clock.elapsed r.now + Clock.counted r.now calls) := by
  have hsound : (r.updateRun j).machine.Sound := (h.sound_advance.run r.entropy j).1
  rcases Clock.afterCalls_accounts calls hsound.clock with ⟨-, hlater, -⟩
  rw [lastReading_updateRun] at hlater
  exact ((h.keeps_updateRun j).trans hlater).steps

/-- An update faults only by halting on the way. -/
theorem Reachable.exists_hasHalted {r : Rig} (h : r.Reachable)
    (hreply : ∃ fault, (r.apply .update).reply = .fault fault) :
    ∃ j < r.machine.clock.stepsDue r.now,
      (r.updateRun j).fault = none ∧ (r.updateRun j).machine.HasHalted := by
  refine Run.exists_hasHalted_of_fault _ (r := .start _ r.entropy) h.sound_advance rfl ?_
  intro hnone
  have hnone' : (r.machine.update r.now r.entropy).fault = none := hnone
  rcases hreply with ⟨fault, hreply⟩
  rw [apply_update, hnone'] at hreply
  cases hreply

end Rig

/-! ## Errands that start no program -/

/-- Whether a request starts no program: it neither loads one that fits nor resets, and it hands
over no state. -/
def Request.StartsNothing : Request → Prop
  | .load program => Memory.maxProgramSize < program.size
  | .reset | .restore _ | .drive .. => False
  | _ => True

/-- Whether an errand starts no program. Files may be restored. -/
def Errand.StartsNothing : Errand → Prop
  | .ask q => q.StartsNothing
  | _ => True

/-- The machines have the same registers, memory and pixels, and remember the same program. -/
structure Machine.SameCore (m m' : Machine) : Prop where
  registers : m'.registers = m.registers
  memory : m'.memory = m.memory
  grid : m'.screen.grid = m.screen.grid
  program : m'.program = m.program

namespace Machine.SameCore

variable {m m' : Machine}

theorem refl (m : Machine) : m.SameCore m :=
  ⟨rfl, rfl, rfl, rfl⟩

theorem hasHalted (h : m.SameCore m') (hhalt : m.HasHalted) : m'.HasHalted := by
  unfold HasHalted
  rw [h.registers]
  exact hhalt

theorem restored (h : m.SameCore m') (now : Reading) : m.SameCore (m'.snapshot.machine now) :=
  ⟨h.registers, h.memory, h.grid, h.program⟩

variable (h : m.SameCore m') (hhalt : m.HasHalted)

include h

theorem withClock (clock : Clock) : m.SameCore { m' with clock } :=
  ⟨h.registers, h.memory, h.grid, h.program⟩

theorem withKeypad (keypad : Keypad) : m.SameCore { m' with keypad } :=
  ⟨h.registers, h.memory, h.grid, h.program⟩

theorem displayFrame : m.SameCore m'.displayFrame.2 :=
  ⟨h.registers, h.memory, m'.screen.grid_refresh.trans h.grid, h.program⟩

include hhalt

theorem step (entropy : List UInt8) : m.SameCore (m'.step entropy).machine := by
  rw [step_of_not_fetchable (hasHalted_iff.1 (h.hasHalted hhalt))]
  exact h

theorem run (entropy : List UInt8) (n : Nat) : m.SameCore (m'.run entropy n).machine :=
  Run.steps_machine (fun _ entropy hm => hm.step hhalt entropy) n h

end Machine.SameCore

/-- A machine that has halted keeps its core through every request that starts no program. -/
theorem Machine.SameCore.apply {m : Machine} {r : Rig} (h : m.SameCore r.machine)
    (hhalt : m.HasHalted) {q : Request} (hq : q.StartsNothing) :
    m.SameCore (r.apply q).rig.machine := by
  cases q with
  | load program =>
    rw [r.apply_load_of_lt hq]
    exact h
  | press code => exact h.withKeypad _
  | release code => exact h.withKeypad _
  | pressBy handle code => exact r.throughHandle_machine handle _ h.withKeypad
  | releaseBy handle code => exact r.throughHandle_machine handle _ h.withKeypad
  | step => exact h.step hhalt r.entropy
  | run n => exact h.run hhalt r.entropy n
  | update => exact (h.withClock _).run hhalt r.entropy _
  | attach start => exact h.withClock _
  | advanceClock => exact h.withClock _
  | resetClock => exact h.withClock _
  | tick n => exact h.withClock _
  | displayFrame => exact h.displayFrame
  | beginWait => exact h.withKeypad _
  | takePress => exact h.withKeypad _
  | releaseAll => exact h.withKeypad _
  | isHeld code | wait nanos | debugFrame | save => exact h
  | reset | restore bytes | drive maxSteps deltas recorder => exact hq.elim

namespace Bench

def after (b : Bench) : List Errand → Bench
  | [] => b
  | e :: es => (b.run e).2.after es

/-- Everything at the bench has halted as `m` has: the machine, and what is in the files. -/
structure Halted (m : Machine) (b : Bench) : Prop where
  rig : m.SameCore b.rig.machine
  files : ∀ file, b.files file = [] ∨ ∃ m', m.SameCore m' ∧ b.files file = m'.save

variable {m : Machine} {b : Bench} (h : b.Halted m) (hhalt : m.HasHalted)
  (hfits : m.program.size ≤ Memory.maxProgramSize)

include h hhalt hfits

/-- A bench at which everything has halted stays so in an errand that starts no program. -/
theorem Halted.run {e : Errand} (he : e.StartsNothing) : (b.run e).2.Halted m := by
  cases e with
  | ask q => exact ⟨h.rig.apply hhalt he, h.files⟩
  | save file =>
    refine ⟨h.rig, fun other => ?_⟩
    change (if other = file then b.rig.machine.save else b.files other) = [] ∨ ∃ m',
      m.SameCore m' ∧ (if other = file then b.rig.machine.save else b.files other) = m'.save
    split
    · exact .inr ⟨b.rig.machine, h.rig, rfl⟩
    · exact h.files other
  | restore file =>
    refine ⟨?_, h.files⟩
    change m.SameCore (b.rig.apply (.restore (b.files file))).rig.machine
    rcases h.files file with hempty | ⟨m', hm', hsaved⟩
    · -- nothing was saved in the file, and there is nothing to restore
      have hread : Machine.restore b.rig.now (b.files file) = .error .endOfInput := by
        rw [hempty]
        rfl
      rw [b.rig.apply_restore_of_error hread]
      exact h.rig
    · rw [hsaved, b.rig.apply_restore_save (hm'.program ▸ hfits)]
      exact hm'.restored b.rig.now

/-- A bench at which everything has halted stays so in errands that start no program. -/
theorem Halted.after {es : List Errand} (hes : ∀ e ∈ es, e.StartsNothing) :
    (b.after es).Halted m := by
  induction es generalizing b with
  | nil => exact h
  | cons e es ih =>
    have hfirst := h.run hhalt hfits (hes e List.mem_cons_self)
    exact ih hfirst fun e' he' => hes e' (List.mem_cons_of_mem e he')

end Bench

namespace Rig

theorem apply_step_of_hasHalted {r : Rig} (h : r.machine.HasHalted) :
    r.apply .step =
      ⟨.fault (.halted r.machine.registers.pc), r, [.outOfBounds r.machine.registers.pc]⟩ := by
  rw [apply_step, Machine.step_of_not_fetchable (Machine.hasHalted_iff.1 h)]

/-- An update of a machine that has halted faults if any step is due. -/
theorem reply_update_of_hasHalted {r : Rig} (h : r.machine.HasHalted) :
    (r.apply .update).reply =
      if r.machine.clock.stepsDue r.now = 0 then .count 0
      else .fault (.halted r.machine.registers.pc) := by
  split
  · next hzero =>
    rw [apply_update, update_eq_updateRun, hzero]
    rfl
  · next hpos => exact (apply_update_of_hasHalted (j := 0) (Nat.pos_of_ne_zero hpos) rfl h).1

/-- A step of a reachable machine fails only where it has halted. -/
theorem Reachable.reply_step_iff {r : Rig} (h : r.Reachable) :
    (∃ fault, (r.apply .step).reply = .fault fault) ↔ r.machine.HasHalted := by
  constructor
  · rintro ⟨fault, hreply⟩
    rw [apply_step, h.sound.fault_step] at hreply
    rw [Machine.hasHalted_iff]
    cases hf : Machine.fetchable r.machine.registers.pc with
    | false => rfl
    | true =>
      rw [hf] at hreply
      cases hreply
  · intro hhalt
    exact ⟨_, congrArg Response.reply (apply_step_of_hasHalted hhalt)⟩

/-- **Halting.** A step of a reachable machine fails exactly where the program counter has left
program memory, and then it does nothing but say so. An update faults only by halting on the way;
it leaves what its first steps have made after the ticks, but its clock has counted the whole time,
and the steps that were dropped do not come due again. A machine that has halted fails so for good:
whatever is done that starts no program, files of its own making included, its registers, memory
and pixels stay, each step gives the same fault, and so does each update that has a step due. A load
or a reset starts it afresh. -/
theorem Reachable.halting {r : Rig} (h : r.Reachable) :
    let pc := r.machine.registers.pc
    let clock := r.machine.clock
    let due := clock.stepsDue r.now
    (((∃ fault, (r.apply .step).reply = .fault fault) ↔ r.machine.HasHalted) ∧
      (r.machine.HasHalted → r.apply .step = ⟨.fault (.halted pc), r, [.outOfBounds pc]⟩)) ∧
    ((∃ fault, (r.apply .update).reply = .fault fault) →
      ∃ j < due, (r.updateRun j).fault = none ∧ (r.updateRun j).machine.HasHalted) ∧
    (∀ j < due, (r.updateRun j).fault = none → (r.updateRun j).machine.HasHalted →
      let first := r.updateRun j
      let cut := (r.apply .update).rig
      first.completed = j ∧
      (r.apply .update).reply = .fault (.halted first.machine.registers.pc) ∧
      cut = { r with machine := first.machine, entropy := first.entropy } ∧
      cut.machine.clock.lastReading = r.now ∧
      cut.machine.clock.cpuDebt.toNat =
        (clock.cpuDebt.toNat + clock.elapsed r.now * clock.rate.toNat) % Clock.period ∧
      cut.machine.clock.timerDebt.toNat =
        (clock.timerDebt.toNat + clock.elapsed r.now * 60) % Clock.period ∧
      ∀ calls, due + cut.machine.clock.granted calls =
        clock.stepsIn (clock.elapsed r.now + Clock.counted r.now calls)) ∧
    (r.machine.HasHalted →
      ∀ errands, (∀ e ∈ errands, e.StartsNothing) →
        let last := ((Bench.mk r fun _ => []).after errands).rig
        last.machine.registers = r.machine.registers ∧
        last.machine.memory = r.machine.memory ∧
        last.machine.screen.grid = r.machine.screen.grid ∧
        last.apply .step = ⟨.fault (.halted pc), last, [.outOfBounds pc]⟩ ∧
        ((last.apply .update).reply =
          if last.machine.clock.stepsDue last.now = 0 then .count 0 else .fault (.halted pc)) ∧
        (last.apply .reset).rig.machine.registers.pc = 0x200 ∧
        ∀ program : Array UInt8, program.size ≤ 3584 →
          (last.apply (.load program)).rig.machine.registers.pc = 0x200) := by
  intro pc clock due
  refine ⟨⟨h.reply_step_iff, apply_step_of_hasHalted⟩, h.exists_hasHalted, ?_, ?_⟩
  · intro j hj hfault hhalt first cut
    rcases apply_update_of_hasHalted hj hfault hhalt with ⟨hreply, hcut⟩
    have hclock : cut.machine.clock = first.machine.clock :=
      congrArg (fun rig : Rig => rig.machine.clock) hcut
    have hcompleted : first.completed = 0 + j := Run.completed_of_fault_eq_none j hfault
    have hkeeps := h.keeps_updateRun j
    rw [hclock]
    exact ⟨hcompleted.trans (Nat.zero_add j), hreply, hcut, r.lastReading_updateRun j,
      hkeeps.cpuDebt, hkeeps.timerDebt, h.granted_updateRun j⟩
  · intro hhalt errands herrands last
    have hbench : (Bench.mk r fun _ => []).Halted r.machine :=
      ⟨.refl r.machine, fun _ => .inl rfl⟩
    have hlast := (hbench.after hhalt h.program_fits herrands).rig
    have hhalt' : last.machine.HasHalted := hlast.hasHalted hhalt
    have hpc : last.machine.registers.pc = pc := congrArg Registers.pc hlast.registers
    have hstep := apply_step_of_hasHalted hhalt'
    have hupdate := reply_update_of_hasHalted hhalt'
    rw [hpc] at hstep hupdate
    refine ⟨hlast.registers, hlast.memory, hlast.grid, hstep, hupdate, ?_, ?_⟩
    · rw [apply_reset, Machine.reset_fst]
      rfl
    · intro program hle
      rw [last.apply_load_of_le hle, Machine.reset_fst]
      rfl

/-- The second of five steps jumps out of program memory; what comes after, an oversized program and
a restored file among it, does not bring the machine back. -/
theorem Reachable.halting_jump :
    let r := (Rig.start 500 .standard 0 []).after
      [.load #[0x60, 0x2A, 0x11, 0x00], .wait 10000000]
    let halted := (r.apply .update).rig
    let errands := [.ask (.load (Array.replicate 3585 0)), .save "file", .ask (.press 3),
      .restore "file", .ask (.wait 4000000)]
    let last := ((Bench.mk halted fun _ => []).after errands).rig
    r.Reachable ∧ r.machine.clock.stepsDue r.now = 5 ∧ (r.updateRun 2).fault = none ∧
      (r.apply .update).reply = .fault (.halted 0x100) ∧
      halted.machine.registers.get .first = 0x2A ∧
      (∀ calls, 5 + halted.machine.clock.granted calls =
        r.machine.clock.stepsIn (10000000 + Clock.counted 10000000 calls)) ∧
      (∀ e ∈ errands, e.StartsNothing) ∧
      last.machine.registers = halted.machine.registers ∧
      last.apply .step = ⟨.fault (.halted 0x100), last, [.outOfBounds 0x100]⟩ := by
  intro r halted errands last
  have h : r.Reachable := Rig.Reachable.after (.start ..) (by simp [Request.IsPlain])
  have hdue : r.machine.clock.stepsDue r.now = 5 := by decide +kernel
  have hnow : r.now = 10000000 := by decide +kernel
  have helapsed : r.machine.clock.elapsed r.now = 10000000 := by decide +kernel
  have hfault : (r.updateRun 2).fault = none := by decide +kernel
  have hfirst : (r.updateRun 2).machine.registers.pc = 0x100 := by decide +kernel
  have hv : halted.machine.registers.get .first = 0x2A := by decide +kernel
  have hpc : halted.machine.registers.pc = 0x100 := by decide +kernel
  have hsize : (Array.replicate 3585 (0 : UInt8)).size = 3585 := Array.size_replicate
  have herrands : ∀ e ∈ errands, e.StartsNothing := by
    simp [errands, Errand.StartsNothing, Request.StartsNothing]
  have hout : ¬(0x200 ≤ UInt64.toNat 0x100 ∧ UInt64.toNat 0x100 ≤ 0xFFE) := by decide
  -- from here on it matters no more what the program is
  clear_value r errands
  have hhalt : (r.updateRun 2).machine.HasHalted := by
    unfold Machine.HasHalted
    rw [hfirst]
    exact hout
  have hhalted : halted.machine.HasHalted := by
    unfold Machine.HasHalted
    rw [hpc]
    exact hout
  rcases h.halting with ⟨-, -, hcut, -⟩
  rcases hcut 2 (by rw [hdue]; decide) hfault hhalt with ⟨-, hreply, -, -, -, -, hgranted⟩
  have hnext : halted.Reachable := h.apply .update trivial
  rcases hnext.halting with ⟨-, -, -, hlater⟩
  rcases hlater hhalted errands herrands with ⟨hregisters, -, -, hstep, -⟩
  rw [hfirst] at hreply
  rw [hdue, helapsed, hnow] at hgranted
  rw [hpc] at hstep
  exact ⟨h, hdue, hfault, hreply, hv, hgranted, herrands, hregisters, hstep⟩

end Rig
end ChipEight
