import Mathlib
import ChipEight.Proofs.SameButClock
import ChipEight.Proofs.Soundness

/-!
# Batching

However an elapsed time is cut up into updates, the machine goes through the same steps, carries
the same debts and counts its timers down alike. One update runs what its clock grants; the clock's
accounts add up (`Clock.Keeps.trans`), a run that is resumed is the run of all the steps
(`Run.steps_resumed`), and the clock, which is not the same at the same step, is out of the
program's sight unless it reads the delay timer (`Run.SameButClock.steps`). Where a run ends in a
fault, the machine has halted, so the steps that an update drops would not have done anything.
-/

namespace ChipEight

/-! ## Runs that are resumed -/

namespace Run

/-- A run in a sound machine faults only if the machine has halted. -/
theorem not_fetchable_of_fault (n : Nat) {r : Run} (h : r.machine.Sound)
    (hr : r.fault.isSome → Machine.fetchable r.machine.registers.pc = false)
    (hfault : (r.steps n).fault.isSome) :
    Machine.fetchable (r.steps n).machine.registers.pc = false := by
  induction n generalizing r with
  | zero => exact hr hfault
  | succ n ih =>
    rw [steps_succ] at hfault ⊢
    split at hfault
    · next hf =>
      rw [if_pos hf]
      exact hr hf
    · next hf =>
      rw [if_neg hf]
      refine ih (Machine.step_sound r.entropy h) (fun hstep => ?_) hfault
      cases hfetch : Machine.fetchable r.machine.registers.pc with
      | false =>
        unfold step
        simp only [Machine.step_of_not_fetchable hfetch]
        exact hfetch
      | true =>
        -- within program memory a step of a sound machine does not fault
        have hstep' : (r.machine.step r.entropy).fault.isSome := hstep
        rw [h.fault_step, if_pos hfetch] at hstep'
        cases hstep'

/-- What a run that is resumed comes to, from what the rest of it comes to on its own. -/
structure Resumed (first rest whole : Run) : Prop where
  machine : whole.machine = rest.machine
  entropy : whole.entropy = rest.entropy
  executed : executed whole.events.toList =
    executed first.events.toList ++ executed rest.events.toList
  fault : whole.fault = none ↔ first.fault = none ∧ rest.fault = none

/-- A step adds the same to the rest as to the whole. -/
theorem Resumed.step {first rest whole : Run} (h : Resumed first rest whole)
    (hfirst : first.fault = none) : Resumed first rest.step whole.step := by
  unfold Run.step
  rw [h.machine, h.entropy]
  refine ⟨rfl, rfl, ?_, by simp [hfirst]⟩
  rw [Array.toList_appendList, Array.toList_appendList, executed_append, executed_append,
    h.executed, List.append_assoc]

/-- Steps add the same to the rest as to the whole. -/
theorem Resumed.steps (n : Nat) {first rest whole : Run} (h : Resumed first rest whole)
    (hfirst : first.fault = none) : Resumed first (rest.steps n) (whole.steps n) := by
  induction n generalizing rest whole with
  | zero => exact h
  | succ n ih =>
    have hfault : whole.fault.isSome = rest.fault.isSome := by
      have := h.fault
      cases hw : whole.fault <;> cases hr : rest.fault <;> simp_all
    rw [steps_succ, steps_succ, hfault]
    split
    · exact h
    · exact ih (h.step hfirst)

/-- A run that goes on comes to what it had and what the rest comes to on its own. -/
theorem steps_resumed (n : Nat) {r : Run}
    (h : r.fault.isSome → Machine.fetchable r.machine.registers.pc = false) :
    Resumed r ((start r.machine r.entropy).steps n) (r.steps n) := by
  by_cases hfault : r.fault.isSome
  · rw [steps_of_fault hfault]
    have hne : r.fault ≠ none := fun hn => by simp [hn] at hfault
    obtain hs | hs := steps_start_of_not_fetchable (h hfault) r.entropy n <;> rw [hs]
    · exact ⟨rfl, rfl, (List.append_nil _).symm, by simp [hne]⟩
    · exact ⟨rfl, rfl, (List.append_nil _).symm, by simp [hne]⟩
  · have hnone : r.fault = none := Option.not_isSome_iff_eq_none.1 hfault
    exact Resumed.steps n ⟨rfl, rfl, (List.append_nil _).symm, by simp [hnone, start]⟩ hnone

/-- The whole has executed none of a kind if neither of its parts has. -/
theorem Resumed.noneExecuted_iff {first rest whole : Run} (h : Resumed first rest whole)
    {kind : Instruction → Prop} :
    NoneExecuted kind whole.events.toList ↔
      NoneExecuted kind first.events.toList ∧ NoneExecuted kind rest.events.toList := by
  rw [← noneExecuted_append]
  unfold NoneExecuted
  rw [h.executed, executed_append]

/-- Steps that set no timer leave the clock alone. -/
theorem clock_steps_of_noneExecuted (n : Nat) {r : Run}
    (h : NoneExecuted Instruction.SetsTimer (r.steps n).events.toList) :
    (r.steps n).machine.clock = r.machine.clock := by
  induction n generalizing r with
  | zero => rfl
  | succ n ih =>
    rw [steps_succ] at h ⊢
    split
    · rfl
    · next hf =>
      rw [if_neg hf] at h
      rw [ih h]
      refine Machine.clock_step_of_ne r.entropy fun hfetch i hi => ?_
      have hnot := fun hsets => h i hsets (toWord_mem_executed_steps n hfetch hi)
      exact ⟨fun x hx => hnot ⟨x, .inl hx⟩, fun x hx => hnot ⟨x, .inr hx⟩⟩

end Run

/-! ## Rounds

A round moves the time and asks for an update.
-/

/-- Moves the time by each entry, with an update after each move. -/
def updatesAfter (deltas : List Nat) : List Request :=
  deltas.flatMap fun delta => [.wait delta, .update]

/-- The steps that a reply tells of. -/
def Reply.steps : Reply → Nat
  | .count n => n
  | _ => 0

theorem Reading.toNat_later {r : Reading} {nanos : Nat} (h : r.toNat + nanos < UInt64.size) :
    (r.later nanos).toNat = r.toNat + nanos := by
  have hlt : r.toNat + nanos < 18446744073709551616 := h
  unfold later
  rw [UInt64.toNat_add, UInt64.toNat_ofNat']
  omega

namespace Rig

/-- The run of the update that ends a round. -/
def roundRun (r : Rig) (delta : Nat) : Run :=
  r.machine.update (r.now.later delta) r.entropy

def round (r : Rig) (delta : Nat) : Rig :=
  { r with
    now := r.now.later delta
    machine := (r.roundRun delta).machine
    entropy := (r.roundRun delta).entropy }

theorem after_updatesAfter_cons (r : Rig) (delta : Nat) (deltas : List Nat) :
    r.after (updatesAfter (delta :: deltas)) = (r.round delta).after (updatesAfter deltas) :=
  rfl

theorem log_updatesAfter_cons (r : Rig) (delta : Nat) (deltas : List Nat) :
    r.log (updatesAfter (delta :: deltas)) =
      (r.roundRun delta).events.toList ++ (r.round delta).log (updatesAfter deltas) :=
  rfl

/-- The replies of one round, and those of the rest. -/
theorem replies_updatesAfter_cons (r : Rig) (delta : Nat) (deltas : List Nat) :
    r.replies (updatesAfter (delta :: deltas)) =
      .done :: (match (r.roundRun delta).fault with
        | some fault => .fault fault
        | none => .count (r.roundRun delta).completed) ::
      (r.round delta).replies (updatesAfter deltas) :=
  rfl

theorem Reachable.round {r : Rig} (h : r.Reachable) (delta : Nat) : (r.round delta).Reachable :=
  (h.apply (.wait delta) trivial).apply .update trivial

theorem round_clock (r : Rig) (delta : Nat) : ∃ delay sound, (r.round delta).machine.clock =
    { r.machine.clock.advance (r.now.later delta) with delay, sound } :=
  Run.clock_steps _ _

theorem round_current (r : Rig) (delta : Nat) : (r.round delta).Current := by
  obtain ⟨delay, sound, hclock⟩ := r.round_clock delta
  unfold Current
  rw [hclock]
  rfl

section Rounds

variable {r : Rig} (h : r.Reachable) (hcur : r.Current) {delta : Nat}
  (hdelta : r.now.toNat + delta < UInt64.size)

include hcur hdelta in
theorem elapsed_later : r.machine.clock.elapsed (r.now.later delta) = delta := by
  unfold Clock.elapsed
  rw [hcur, Reading.toNat_later hdelta]
  omega

include h hcur hdelta in
/-- A round keeps account of the time that it has moved. -/
theorem round_keeps : Clock.Keeps r.machine.clock delta (r.round delta).machine.clock
    (r.machine.clock.stepsDue (r.now.later delta)) := by
  have hk := Clock.advance_keeps h.sound.clock (r.now.later delta)
  rw [elapsed_later hcur hdelta] at hk
  obtain ⟨delay, sound, hclock⟩ := r.round_clock delta
  rw [hclock]
  exact ⟨hk.rate, hk.steps, hk.cpuDebt, hk.timerDebt⟩

include h hcur hdelta in
/-- A round in which no timer is set counts the timers down by its ticks. -/
theorem round_countsDown
    (hnone : NoneExecuted Instruction.SetsTimer (r.roundRun delta).events.toList) :
    Clock.CountsDown r.machine.clock delta (r.round delta).machine.clock := by
  have ht := Clock.advance_countsDown h.sound.clock (r.now.later delta)
  rw [elapsed_later hcur hdelta] at ht
  have hclock : (r.round delta).machine.clock = r.machine.clock.advance (r.now.later delta) :=
    Run.clock_steps_of_noneExecuted _ hnone
  rw [hclock]
  exact ht

theorem roundRun_completed (hfault : (r.roundRun delta).fault = none) :
    (r.roundRun delta).completed = r.machine.clock.stepsDue (r.now.later delta) :=
  (Run.completed_of_fault_eq_none _ hfault).trans (Nat.zero_add _)

end Rounds

/-! ## Many rounds -/

/-- The books of the clock after some rounds, and what the updates were answered. -/
theorem updatesAfter_keeps (deltas : List Nat) {r : Rig} (h : r.Reachable) (hcur : r.Current)
    (hT : r.now.toNat + deltas.sum < UInt64.size) :
    ∃ N, Clock.Keeps r.machine.clock deltas.sum (r.after (updatesAfter deltas)).machine.clock N ∧
      ((∀ fault, .fault fault ∉ r.replies (updatesAfter deltas)) →
        ((r.replies (updatesAfter deltas)).map Reply.steps).sum = N) := by
  induction deltas generalizing r with
  | nil => exact ⟨0, .refl h.sound.clock, fun _ => rfl⟩
  | cons delta deltas ih =>
    rw [List.sum_cons] at hT ⊢
    have hdelta : r.now.toNat + delta < UInt64.size := by omega
    have hnow : (r.round delta).now.toNat = r.now.toNat + delta := Reading.toNat_later hdelta
    obtain ⟨N, hk, hsum⟩ := ih (h.round delta) (r.round_current delta) (by omega)
    refine ⟨_, (round_keeps h hcur hdelta).trans hk, fun hnone => ?_⟩
    rw [replies_updatesAfter_cons] at hnone ⊢
    simp only [List.mem_cons, not_or] at hnone
    cases hfault : (r.roundRun delta).fault with
    | some fault => exact absurd (by rw [hfault]) (hnone fault).2.1
    | none =>
      simp only [List.map_cons, List.sum_cons, Reply.steps, Nat.zero_add,
        roundRun_completed hfault, hsum fun fault => (hnone fault).2.2]

/-- Rounds in which no timer is set count the timers down by the ticks of their whole time. -/
theorem updatesAfter_countsDown (deltas : List Nat) {r : Rig} (h : r.Reachable)
    (hcur : r.Current) (hT : r.now.toNat + deltas.sum < UInt64.size)
    (hnone : NoneExecuted Instruction.SetsTimer (r.log (updatesAfter deltas))) :
    Clock.CountsDown r.machine.clock deltas.sum (r.after (updatesAfter deltas)).machine.clock := by
  induction deltas generalizing r with
  | nil => exact .refl h.sound.clock
  | cons delta deltas ih =>
    rw [List.sum_cons] at hT ⊢
    rw [log_updatesAfter_cons, noneExecuted_append] at hnone
    have hdelta : r.now.toNat + delta < UInt64.size := by omega
    have hnow : (r.round delta).now.toNat = r.now.toNat + delta := Reading.toNat_later hdelta
    have hrest := ih (h.round delta) (r.round_current delta) (by omega) hnone.2
    exact .trans (round_keeps h hcur hdelta) (round_countsDown h hcur hdelta hnone.1) hrest

/-- What a plain run has come to is what some updates have come to, but for the clock. -/
structure Matches (plain : Run) (last : Rig) (log : List Event) (replies : List Reply) : Prop where
  machine : plain.machine.SameButClock last.machine
  entropy : last.entropy = plain.entropy
  executed : executed log = executed plain.events.toList
  fault : plain.fault = none ↔ ∀ fault, .fault fault ∉ replies

/-- Among the replies of rounds there is no fault if there is none in the first and none in the
rest. -/
theorem noFault_cons_iff {run : Run} {replies : List Reply} :
    (∀ fault, Reply.fault fault ∉ Reply.done :: (match run.fault with
      | some fault => Reply.fault fault
      | none => .count run.completed) :: replies) ↔
      run.fault = none ∧ ∀ fault, Reply.fault fault ∉ replies := by
  cases run.fault with
  | none => simp
  | some fault =>
    refine ⟨fun h => absurd ?_ (h fault), fun h => nomatch h.1⟩
    exact List.mem_cons_of_mem _ List.mem_cons_self

/-- In one round, the plain run and the run of the update are alike. -/
theorem roundRun_sameButClock (r : Rig) (delta : Nat)
    (hnone : NoneExecuted Instruction.ReadsDelay
        (r.machine.run r.entropy (r.machine.clock.stepsDue (r.now.later delta))).events.toList ∨
      NoneExecuted Instruction.ReadsDelay (r.roundRun delta).events.toList) :
    (r.machine.run r.entropy (r.machine.clock.stepsDue (r.now.later delta))).SameButClock
      (r.roundRun delta) := by
  have hstart : (Run.start r.machine r.entropy).SameButClock
      (Run.start { r.machine with clock := r.machine.clock.advance (r.now.later delta) }
        r.entropy) := ⟨rfl, rfl, rfl, rfl, rfl⟩
  exact hstart.steps_of_or _ hnone

/-- What one round and the rest have come to, from what the two halves of a plain run have. -/
theorem Matches.cons {first rest rest' whole round : Run} {last : Rig} {log : List Event}
    {replies : List Reply} (hfirst : first.SameButClock round)
    (hwhole : Run.Resumed first rest whole) (hrest : rest.SameButClock rest')
    (h : Matches rest' last log replies) :
    Matches whole last (round.events.toList ++ log)
      (.done :: (match round.fault with
        | some fault => .fault fault
        | none => .count round.completed) :: replies) where
  machine := hwhole.machine ▸ hrest.machine.trans h.machine
  entropy := by rw [h.entropy, hrest.entropy, hwhole.entropy]
  executed := by rw [executed_append, h.executed, hrest.events, hfirst.events, hwhole.executed]
  fault := by rw [hwhole.fault, noFault_cons_iff, ← h.fault, hfirst.fault, hrest.fault]

/-- However the time is cut into rounds, they match the plain run of the steps that come due in all
of it. By induction on the rounds: the plain run is cut where the first round ends, and the rest of
it starts from a machine that differs from that of the round in its clock alone. -/
theorem updatesAfter_matches (deltas : List Nat) {r : Rig} (h : r.Reachable) (hcur : r.Current)
    (hT : r.now.toNat + deltas.sum < UInt64.size)
    (hnone : NoneExecuted Instruction.ReadsDelay
        (r.machine.run r.entropy (r.machine.clock.stepsIn deltas.sum)).events.toList ∨
      NoneExecuted Instruction.ReadsDelay (r.log (updatesAfter deltas))) :
    Matches (r.machine.run r.entropy (r.machine.clock.stepsIn deltas.sum))
      (r.after (updatesAfter deltas)) (r.log (updatesAfter deltas))
      (r.replies (updatesAfter deltas)) := by
  induction deltas generalizing r with
  | nil =>
    have hzero : r.machine.clock.stepsIn 0 = 0 := (Clock.Keeps.refl h.sound.clock).steps.symm
    rw [List.sum_nil, hzero]
    exact ⟨.refl _, rfl, rfl, by simp [Machine.run, Run.steps, Run.start, replies, updatesAfter]⟩
  | cons delta deltas ih =>
    rw [List.sum_cons] at hT hnone ⊢
    have hdelta : r.now.toNat + delta < UInt64.size := by omega
    have hnow : (r.round delta).now.toNat = r.now.toNat + delta := Reading.toNat_later hdelta
    have hih := ih (h.round delta) (r.round_current delta) (by omega)
    have hround := r.roundRun_sameButClock delta
    rw [(round_keeps h hcur hdelta).stepsIn_add, Machine.run, Run.steps_add] at hnone ⊢
    rw [log_updatesAfter_cons, noneExecuted_append] at hnone
    rw [after_updatesAfter_cons, log_updatesAfter_cons, replies_updatesAfter_cons]
    generalize (r.round delta).machine.clock.stepsIn deltas.sum = k at hih hnone ⊢
    -- the plain run is its first steps, those of the round, and the rest, on its own
    have hhalt := Run.not_fetchable_of_fault (r.machine.clock.stepsDue (r.now.later delta))
      (r := .start r.machine r.entropy) h.sound fun hfault => absurd hfault Bool.false_ne_true
    have hwhole := Run.steps_resumed k hhalt
    rw [hwhole.noneExecuted_iff] at hnone
    have hfirst := hround (hnone.imp And.left And.left)
    have hnext : (Run.start _ _).SameButClock
        (Run.start (r.round delta).machine (r.round delta).entropy) :=
      ⟨hfirst.machine, hfirst.entropy, rfl, rfl, rfl⟩
    obtain ⟨_, hall⟩ | ⟨_, hlog⟩ := hnone
    · have hrest := hnext.steps k hall
      exact .cons hfirst hwhole hrest (hih (.inl (hall.congr hrest.executed_eq)))
    · have hm := hih (.inr hlog)
      have hrest := hnext.steps_of_or k (.inr (hlog.congr hm.executed))
      exact .cons hfirst hwhole hrest hm

/-- **Batching.** Let a host cut up a time into rounds, on a rig whose clock has accounted for the
current reading. What the clock owes at the end depends on the time alone, and if no update faults
the updates together carry out the steps due in that time. If the delay timer is not read, then
all but the clock comes out as if these steps were taken one after the other, up to the first
fault, and the words executed are the same. If no timer is set, the timers depend on the time
alone. -/
theorem Reachable.updates_batched {r : Rig} (h : r.Reachable) (hcur : r.Current)
    (deltas : List Nat) (hT : r.now.toNat + deltas.sum < UInt64.size) :
    let clock := r.machine.clock
    let n := (clock.cpuDebt.toNat + clock.rate.toNat * deltas.sum) / Clock.period
    let plain := r.machine.run r.entropy n
    let rounds := updatesAfter deltas
    let last := r.after rounds
    (last.machine.clock.cpuDebt.toNat =
        (clock.cpuDebt.toNat + clock.rate.toNat * deltas.sum) % Clock.period ∧
      last.machine.clock.timerDebt.toNat =
        (clock.timerDebt.toNat + 60 * deltas.sum) % Clock.period) ∧
    ((∀ fault, .fault fault ∉ r.replies rounds) →
      ((r.replies rounds).map Reply.steps).sum = n) ∧
    (NoneExecuted Instruction.ReadsDelay plain.events.toList ∨
        NoneExecuted Instruction.ReadsDelay (r.log rounds) →
      last.machine = { plain.machine with clock := last.machine.clock } ∧
        last.entropy = plain.entropy ∧
        executed (r.log rounds) = executed plain.events.toList ∧
        (plain.fault = none ↔ ∀ fault, .fault fault ∉ r.replies rounds)) ∧
    (NoneExecuted Instruction.SetsTimer (r.log rounds) →
      last.machine.clock.delay.toNat =
          clock.delay.toNat - (clock.timerDebt.toNat + 60 * deltas.sum) / Clock.period ∧
        last.machine.clock.sound.toNat =
          clock.sound.toNat - (clock.timerDebt.toNat + 60 * deltas.sum) / Clock.period) := by
  intro clock n plain rounds last
  have hn : clock.stepsIn deltas.sum = n := by
    unfold Clock.stepsIn
    rw [Nat.mul_comm]
  obtain ⟨N, hk, hsum⟩ := updatesAfter_keeps deltas h hcur hT
  refine ⟨⟨?_, ?_⟩, fun hnone => ?_, fun hnone => ?_, fun hnone => ?_⟩
  · rw [hk.cpuDebt, Nat.mul_comm]
  · rw [hk.timerDebt, Nat.mul_comm]
  · rw [hsum hnone, hk.steps]
    exact hn
  · have hm := updatesAfter_matches deltas h hcur hT (hn ▸ hnone)
    rw [hn] at hm
    exact ⟨hm.machine, hm.entropy, hm.executed, hm.fault⟩
  · have ht := updatesAfter_countsDown deltas h hcur hT hnone
    refine ⟨ht.delay.trans ?_, ht.sound.trans ?_⟩
    · rw [Nat.mul_comm]
    · rw [Nat.mul_comm]

/-- Five milliseconds at this rate are five steps, in two rounds or in one. -/
theorem Reachable.updates_batched_five :
    let r := (Rig.start 1000 .standard 7 []).after [.load #[0x70, 0x01, 0x12, 0x00]]
    let rounds := updatesAfter [2500000, 2500000]
    r.Reachable ∧ r.Current ∧
      NoneExecuted Instruction.ReadsDelay (r.machine.run r.entropy 5).events.toList ∧
      ((r.replies rounds).map Reply.steps).sum = 5 ∧
      (r.after rounds).machine.registers = (r.machine.run r.entropy 5).machine.registers := by
  intro r rounds
  have h : r.Reachable := Rig.Reachable.after (.start ..) (by simp [Request.IsPlain])
  have hcur : r.machine.clock.lastReading = r.now := by decide +kernel
  have hnone : NoneExecuted Instruction.ReadsDelay
      (r.machine.run r.entropy 5).events.toList := by
    have hwords : executed (r.machine.run r.entropy 5).events.toList =
        [0x7001, 0x1200, 0x7001, 0x1200, 0x7001] := by decide +kernel
    rintro _ ⟨x, rfl⟩
    rw [hwords]
    revert x
    decide
  obtain ⟨_, hsum, hmatch, _⟩ := h.updates_batched hcur [2500000, 2500000] (by decide +kernel)
  have hfive : (r.machine.clock.cpuDebt.toNat + r.machine.clock.rate.toNat *
      [2500000, 2500000].sum) / Clock.period = 5 := by decide +kernel
  rw [hfive] at hsum hmatch
  obtain ⟨hmachine, _, _, hfault⟩ := hmatch (.inl hnone)
  have hok : (r.machine.run r.entropy 5).fault = none := by decide +kernel
  exact ⟨h, hcur, hnone, hsum (hfault.1 hok), by rw [hmachine]⟩

end Rig
end ChipEight
