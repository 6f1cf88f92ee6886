import ChipEight.Instruction.Lemmas
import ChipEight.Proofs.Step

/-!
# Machines that differ in their clocks

The clock leaks into a program through one instruction only, the one that reads the delay timer.
Two machines that differ at most in their clocks therefore go through the same steps for as long
as that instruction is not executed (`Run.SameButClock.steps`).
-/

namespace ChipEight

/-! ## What was executed -/

/-- The words that were executed, as the reports have it. -/
def executed (events : List Event) : List UInt16 :=
  events.filterMap fun
    | .fetched _ word => some word
    | _ => none

theorem executed_append (l l' : List Event) : executed (l ++ l') = executed l ++ executed l' :=
  List.filterMap_append

/-- The word that a step executes is the one at the program counter. -/
theorem executed_step (m : Machine) (entropy : List UInt8) :
    executed (m.step entropy).events =
      if Machine.fetchable m.registers.pc then [m.nextWord] else [] := by
  rw [Machine.step_eq]
  split
  · cases hc : m.carryOut entropy with
    | error broken => rfl
    | ok effect =>
      have hquiet : executed effect.events = [] := by
        unfold Machine.carryOut at hc
        split at hc
        · have hreports := Machine.reports_execute hc
          generalize effect.events = events at hreports
          cases hreports <;> rfl
        · cases hc
          rfl
      have hcons : executed (.fetched m.registers.pc m.nextWord :: effect.events) =
          m.nextWord :: executed effect.events := rfl
      rw [hcons, hquiet]
  · rfl

/-- Among the executed words none stands for an instruction of this kind. -/
def NoneExecuted (kind : Instruction → Prop) (events : List Event) : Prop :=
  ∀ i, kind i → i.toWord ∉ executed events

theorem NoneExecuted.congr {kind : Instruction → Prop} {l l' : List Event}
    (h : NoneExecuted kind l) (he : executed l = executed l') : NoneExecuted kind l' :=
  fun i hi hmem => h i hi (he ▸ hmem)

theorem noneExecuted_append {kind : Instruction → Prop} {l l' : List Event} :
    NoneExecuted kind (l ++ l') ↔ NoneExecuted kind l ∧ NoneExecuted kind l' := by
  unfold NoneExecuted
  simp only [executed_append, List.mem_append, not_or]
  exact ⟨fun h => ⟨fun i hi => (h i hi).1, fun i hi => (h i hi).2⟩,
    fun h i hi => ⟨h.1 i hi, h.2 i hi⟩⟩

def Instruction.ReadsDelay (i : Instruction) : Prop :=
  ∃ x, i = .readDelay x

def Instruction.SetsTimer (i : Instruction) : Prop :=
  ∃ x, i = .setDelay x ∨ i = .setSound x

/-! ## Machines -/

namespace Machine

def withClock (m : Machine) (c : Clock) : Machine :=
  { m with clock := c }

/-- The machines differ at most in their clocks. -/
def SameButClock (m m' : Machine) : Prop :=
  m' = m.withClock m'.clock

theorem SameButClock.refl (m : Machine) : m.SameButClock m :=
  rfl

theorem SameButClock.symm {m m' : Machine} (h : m.SameButClock m') : m'.SameButClock m := by
  unfold SameButClock at *
  rw [h]
  rfl

theorem SameButClock.trans {m m' m'' : Machine} (h : m.SameButClock m')
    (h' : m'.SameButClock m'') : m.SameButClock m'' := by
  unfold SameButClock at *
  rw [h', h]
  rfl

/-- What is carried out leads to the same up to the clock, or breaks off at the same. -/
inductive SameEffect : Except Machine Effect → Except Machine Effect → Prop where
  | ok {m m' : Machine} {entropy : List UInt8} {events : List Event} (h : m.SameButClock m') :
    SameEffect (.ok ⟨m, entropy, events⟩) (.ok ⟨m', entropy, events⟩)
  | error {m m' : Machine} (h : m.SameButClock m') : SameEffect (.error m) (.error m')

theorem ofStack_withClock (m : Machine) (c : Clock) (entropy : List UInt8)
    (r : Except Registers Registers) :
    SameEffect (Effect.ofStack m entropy r) (Effect.ofStack (m.withClock c) entropy r) := by
  cases r with
  | ok r => exact .ok rfl
  | error r => exact .error rfl

/-- An instruction that does not read the delay timer does the same on another clock. -/
theorem execute_withClock (m : Machine) (c : Clock) (entropy : List UInt8) {i : Instruction}
    (h : ¬ i.ReadsDelay) :
    SameEffect (m.execute entropy i) ((m.withClock c).execute entropy i) := by
  have hregisters : (m.withClock c).registers = m.registers := rfl
  cases i with
  | ret =>
    simp only [execute, hregisters]
    split
    · exact .ok rfl
    · exact ofStack_withClock ..
  | call nnn =>
    simp only [execute, hregisters]
    split
    · exact .ok rfl
    · exact ofStack_withClock ..
  | awaitKey x =>
    rw [execute_awaitKey, execute_awaitKey]
    obtain ⟨hmode, he⟩ | ⟨hmode, hlatch, he⟩ | ⟨hmode, key, hlatch, he⟩ :=
      m.awaitKey_cases entropy x
    · rw [he, awaitKey_of_running (m := m.withClock c) hmode]
      exact .ok rfl
    · rw [he, awaitKey_of_none (m := m.withClock c) hmode hlatch]
      exact .ok rfl
    · rw [he, awaitKey_of_some (m := m.withClock c) hmode hlatch]
      exact .ok rfl
  | readDelay x => exact absurd ⟨x, rfl⟩ h
  | _ => exact .ok rfl

/-- What is fetched does the same on another clock, unless it reads the delay timer. -/
theorem carryOut_withClock (m : Machine) (c : Clock) (entropy : List UInt8)
    (h : ∀ i, m.instruction? = some i → ¬ i.ReadsDelay) :
    SameEffect (m.carryOut entropy) ((m.withClock c).carryOut entropy) := by
  have hi : (m.withClock c).instruction? = m.instruction? := rfl
  unfold carryOut
  rw [hi]
  cases he : m.instruction? with
  | some i => exact execute_withClock m.recorded c entropy (h i he)
  | none => exact .ok rfl

end Machine

structure Outcome.SameButClock (o o' : Outcome) : Prop where
  machine : o.machine.SameButClock o'.machine
  fault : o'.fault = o.fault
  entropy : o'.entropy = o.entropy
  events : o'.events = o.events

/-- A step does the same on another clock, unless it reads the delay timer. -/
theorem Machine.step_withClock (m : Machine) (c : Clock) (entropy : List UInt8)
    (hi : fetchable m.registers.pc = true → ∀ i, m.instruction? = some i → ¬ i.ReadsDelay) :
    (m.step entropy).SameButClock ((m.withClock c).step entropy) := by
  by_cases hf : fetchable m.registers.pc = true
  · have hfc : fetchable (m.withClock c).registers.pc = true := hf
    have hsame := m.carryOut_withClock c entropy (hi hf)
    rw [step_eq, step_eq, if_pos hf, if_pos hfc]
    generalize m.carryOut entropy = a, (m.withClock c).carryOut entropy = b at hsame
    cases hsame with
    | ok hm => exact ⟨hm, rfl, rfl, rfl⟩
    | error hm => exact ⟨hm, rfl, rfl, rfl⟩
  · have hf' : fetchable m.registers.pc = false := Bool.eq_false_iff.2 hf
    have hfc : fetchable (m.withClock c).registers.pc = false := hf'
    rw [step_of_not_fetchable hf', step_of_not_fetchable hfc]
    exact ⟨rfl, rfl, rfl, rfl⟩

/-! ## Runs -/

namespace Run

/-- Runs only ever add to the reports. -/
theorem events_prefix_steps (n : Nat) (r : Run) :
    r.events.toList <+: (r.steps n).events.toList := by
  induction n generalizing r with
  | zero => exact List.prefix_rfl
  | succ n ih =>
    rw [steps_succ]
    split
    · exact List.prefix_rfl
    · refine List.IsPrefix.trans ?_ (ih r.step)
      rw [events_step]
      exact List.prefix_append ..

/-- The instruction that the next step carries out is among the executed ones at the end. -/
theorem toWord_mem_executed_steps (n : Nat) {r : Run} {i : Instruction}
    (hf : Machine.fetchable r.machine.registers.pc = true)
    (hi : r.machine.instruction? = some i) :
    i.toWord ∈ executed (r.step.steps n).events.toList := by
  have hword : i.toWord = r.machine.nextWord := (Instruction.ofWord?_eq_some_iff.1 hi).symm
  have hfetched : Event.fetched r.machine.registers.pc i.toWord ∈ r.step.events.toList := by
    rw [events_step, hword]
    exact List.mem_append_right _ (Machine.fetched_mem_step hf r.entropy)
  exact List.mem_filterMap.2 ⟨_, (events_prefix_steps n r.step).subset hfetched, rfl⟩

/-- Two runs that differ at most in the clock. -/
structure SameButClock (r r' : Run) : Prop where
  machine : r.machine.SameButClock r'.machine
  entropy : r'.entropy = r.entropy
  events : r'.events = r.events
  completed : r'.completed = r.completed
  fault : r'.fault = r.fault

theorem SameButClock.symm {r r' : Run} (h : r.SameButClock r') : r'.SameButClock r :=
  ⟨h.machine.symm, h.entropy.symm, h.events.symm, h.completed.symm, h.fault.symm⟩

theorem SameButClock.executed_eq {r r' : Run} (h : r.SameButClock r') :
    executed r.events.toList = executed r'.events.toList := by
  rw [h.events]

/-- Runs that are the same but for their clocks stay so in a step that does not read the delay
timer. -/
theorem SameButClock.step {r r' : Run} (h : r.SameButClock r')
    (hi : Machine.fetchable r.machine.registers.pc = true →
      ∀ i, r.machine.instruction? = some i → ¬ i.ReadsDelay) :
    r.step.SameButClock r'.step := by
  have hmachine : r'.machine = r.machine.withClock r'.machine.clock := h.machine
  have ho := r.machine.step_withClock r'.machine.clock r.entropy hi
  rw [← hmachine] at ho
  unfold Run.step
  rw [h.entropy, h.events, h.completed]
  refine ⟨ho.machine, ho.entropy, ?_, ?_, ho.fault⟩
  · simp only [ho.events]
  · simp only [ho.fault]

/-- As long as the delay timer is not read, runs that differ at most in the clock go on to do
so. -/
theorem SameButClock.steps (n : Nat) {r r' : Run} (h : r.SameButClock r')
    (hnone : NoneExecuted Instruction.ReadsDelay (r.steps n).events.toList) :
    (r.steps n).SameButClock (r'.steps n) := by
  induction n generalizing r r' with
  | zero => exact h
  | succ n ih =>
    rw [steps_succ] at hnone
    rw [steps_succ, steps_succ, h.fault]
    split
    · exact h
    · next hfault =>
      rw [if_neg hfault] at hnone
      -- had the step read the timer, its word would be on record at the end
      exact ih (h.step fun hf i hi hreads =>
        hnone i hreads (toWord_mem_executed_steps n hf hi)) hnone

/-- The same, where only of the one run or of the other it is known that the delay timer is not
read. -/
theorem SameButClock.steps_of_or (n : Nat) {r r' : Run} (h : r.SameButClock r')
    (hnone : NoneExecuted Instruction.ReadsDelay (r.steps n).events.toList ∨
      NoneExecuted Instruction.ReadsDelay (r'.steps n).events.toList) :
    (r.steps n).SameButClock (r'.steps n) := by
  obtain hleft | hright := hnone
  · exact h.steps n hleft
  · exact (h.symm.steps n hright).symm

end Run
end ChipEight
