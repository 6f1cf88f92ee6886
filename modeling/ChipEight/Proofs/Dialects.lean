import ChipEight.Proofs.Reachable

/-!
# What a dialect can change

A machine looks at its dialect in four instructions only. The two shifts ask which register to
shift, which makes no difference if both hold the same; the two block transfers ask whether to
advance the index. As long as none of these comes up where two dialects differ
(`Machine.disputes`), two machines that are otherwise the same do the same
(`Machine.step_withDialect`), and so they do whatever a host asks of them (`Rig.dialect_confined`).
-/

namespace ChipEight

/-- Whether two dialects may differ in what an instruction does to these registers. -/
def Instruction.disputed (d d' : Dialect) (r : Registers) : Instruction → Bool
  | .alu .shiftRight x y | .alu .shiftLeft x y => d.shiftsY != d'.shiftsY && r.get x != r.get y
  | .storeRegisters _ | .loadRegisters _ => d.advancesIndex != d'.advancesIndex
  | _ => false

/-- An undisputed operation comes to the same in both dialects. -/
theorem Alu.eval_congr {d d' : Dialect} {r : Registers} {op : Alu} {x y : Reg}
    (h : (Instruction.alu op x y).disputed d d' r = false) :
    op.eval d' (r.get x) (r.get y) = op.eval d (r.get x) (r.get y) := by
  cases op with
  | shiftRight | shiftLeft =>
    simp only [Instruction.disputed, Bool.and_eq_false_iff, bne_eq_false_iff_eq] at h
    rcases h with hd | hsame
    · simp only [eval, hd]
    · simp only [eval, hsame, ite_self]
  | _ => rfl

namespace Registers

def withDialect (r : Registers) (d : Dialect) : Registers :=
  { r with dialect := d }

variable (r : Registers) (d : Dialect)

theorem withDialect_sparesFlow : SparesFlow fun r => r.withDialect d :=
  fun _ _ _ _ => rfl

theorem putFlagged_withDialect (x : Reg) (p : UInt8 × Option UInt8) :
    (r.withDialect d).putFlagged x p = (r.putFlagged x p).withDialect d := by
  rcases p with ⟨b, _ | flag⟩ <;> rfl

theorem advanceIndex_withDialect (h : r.dialect.advancesIndex = d.advancesIndex) (n : Nat) :
    (r.withDialect d).advanceIndex n = (r.advanceIndex n).withDialect d := by
  unfold advanceIndex
  change (if d.advancesIndex then _ else _) = _
  rw [h]
  split <;> rfl

/-- The registers differ in nothing but the dialect and the index, and the index of the dialect that
advances it is `n` ahead. -/
structure ApartByIndex (d : Dialect) (n : UInt16) (r r' : Registers) : Prop where
  rest : r' = { r with dialect := d, i := r'.i }
  index : if d.advancesIndex then r'.i = r.i + n else r.i = r'.i + n

/-- Where only one of two dialects advances the index, the registers end up that far apart and the
same otherwise. -/
theorem advanceIndex_apart {r : Registers} {d : Dialect}
    (h : r.dialect.advancesIndex ≠ d.advancesIndex) (n : Nat) :
    ApartByIndex d (UInt16.ofNat n) (r.advanceIndex n).next
      ((r.withDialect d).advanceIndex n).next := by
  unfold advanceIndex
  change ApartByIndex d _ _ (Registers.next (if d.advancesIndex then _ else _))
  cases hd : d.advancesIndex with
  | true =>
    have hr : ¬ r.dialect.advancesIndex = true := fun hr => h (hr.trans hd.symm)
    rw [if_neg hr]
    refine ⟨rfl, ?_⟩
    rw [if_pos hd]
    rfl
  | false =>
    have hr : r.dialect.advancesIndex = true := by
      rw [hd] at h
      exact Bool.ne_false_iff.1 h
    rw [if_pos hr]
    refine ⟨rfl, ?_⟩
    rw [if_neg (Bool.eq_false_iff.1 hd)]
    rfl

end Registers

/-! ## Steps -/

namespace Machine

/-- The machine as it would be if it had been built with another dialect. -/
def withDialect (m : Machine) (d : Dialect) : Machine :=
  { m with registers := m.registers.withDialect d }

/-- Whether the instruction that comes next is one on which the dialect of the machine and another
one differ. -/
def disputes (m : Machine) (d : Dialect) : Bool :=
  fetchable m.registers.pc &&
    m.instruction?.any (Instruction.disputed m.registers.dialect d m.registers)

end Machine

/-- What is carried out, in another dialect. -/
def Effect.withDialect (d : Dialect) : Except Machine Effect → Except Machine Effect
  | .ok effect => .ok { effect with machine := effect.machine.withDialect d }
  | .error broken => .error (broken.withDialect d)

namespace Machine

/-- An undisputed instruction does the same in another dialect. Of all instructions only the shifts
and the transfers of registers look at the dialect. -/
theorem execute_withDialect (m : Machine) (d : Dialect) (entropy : List UInt8) {i : Instruction}
    (h : i.disputed m.registers.dialect d m.registers = false) :
    (m.withDialect d).execute entropy i = Effect.withDialect d (m.execute entropy i) := by
  cases i with
  | ret =>
    have hret : (m.withDialect d).registers.ret = _ :=
      (Registers.withDialect_sparesFlow d).ret m.registers
    simp only [execute, hret]
    change (if m.registers.sp = 0 then _ else _) = _
    split
    · rfl
    · next hsp =>
      obtain ⟨_, _, _, hr⟩ | ⟨_, hr⟩ := m.registers.ret_cases hsp <;> rw [hr] <;> rfl
  | call nnn =>
    have hcall : (m.withDialect d).registers.call (UInt64.ofNat nnn.val) = _ :=
      (Registers.withDialect_sparesFlow d).call m.registers _
    simp only [execute, hcall]
    change (if m.registers.sp = 16 then _ else _) = _
    split
    · rfl
    · obtain ⟨_, hr⟩ | ⟨_, hr⟩ := m.registers.call_cases (UInt64.ofNat nnn.val) <;> rw [hr] <;> rfl
  | alu op x y =>
    have hput : (m.registers.withDialect d).putFlagged x
          (op.eval d (m.registers.get x) (m.registers.get y)) =
        (m.registers.putFlagged x
          (op.eval m.registers.dialect (m.registers.get x) (m.registers.get y))).withDialect d := by
      rw [Alu.eval_congr h, Registers.putFlagged_withDialect]
    exact congrArg (fun r => Except.ok (Effect.ofRegisters (m.withDialect d) entropy r.next)) hput
  | awaitKey x =>
    rw [execute_awaitKey, execute_awaitKey]
    obtain ⟨hmode, he⟩ | ⟨hmode, hnone, he⟩ | ⟨hmode, key, hsome, he⟩ := m.awaitKey_cases entropy x
    · rw [he, awaitKey_of_running (m := m.withDialect d) hmode]
      rfl
    · rw [he, awaitKey_of_none (m := m.withDialect d) hmode hnone]
      rfl
    · rw [he, awaitKey_of_some (m := m.withDialect d) hmode hsome]
      rfl
  | storeRegisters x =>
    have hindex := m.registers.advanceIndex_withDialect d (bne_eq_false_iff_eq.1 h) (x.val + 1)
    exact congrArg (fun r : Registers => Except.ok (Effect.mk { m.withDialect d with
      memory := m.memory.store m.registers.i.toNat (m.registers.upTo x)
      registers := r.next } entropy [])) hindex
  | loadRegisters x =>
    have hindex := (m.registers.putUpTo x fun k =>
      m.memory.read (m.registers.i.toNat + k)).advanceIndex_withDialect d
        (bne_eq_false_iff_eq.1 h) (x.val + 1)
    exact congrArg (fun r => Except.ok (Effect.ofRegisters (m.withDialect d) entropy r.next)) hindex
  | _ => rfl

/-- What is fetched does the same in another dialect unless it is disputed. -/
theorem carryOut_withDialect {m : Machine} {d : Dialect} (entropy : List UInt8)
    (hf : fetchable m.registers.pc = true) (h : m.disputes d = false) :
    (m.withDialect d).carryOut entropy = Effect.withDialect d (m.carryOut entropy) := by
  have hi : (m.withDialect d).instruction? = m.instruction? := rfl
  unfold disputes at h
  rw [hf, Bool.true_and] at h
  unfold carryOut
  rw [hi]
  split
  · next i he =>
    rw [he] at h
    exact m.recorded.execute_withDialect d entropy h
  · rfl

end Machine

/-- Neither step fails, and the machines differ afterwards in nothing but the dialect and the
index. -/
structure Outcome.ApartByIndex (d : Dialect) (n : UInt16) (o o' : Outcome) : Prop where
  fault : o.fault = none ∧ o'.fault = none
  entropy : o'.entropy = o.entropy
  events : o'.events = o.events
  rest : o'.machine = { o.machine with registers := o'.machine.registers }
  registers : Registers.ApartByIndex d n o.machine.registers o'.machine.registers

def Outcome.withDialect (o : Outcome) (d : Dialect) : Outcome :=
  { o with machine := o.machine.withDialect d }

/-- A step that is not disputed is the same in both dialects. -/
theorem Machine.step_withDialect {m : Machine} {d : Dialect} (entropy : List UInt8)
    (h : m.disputes d = false) :
    (m.withDialect d).step entropy = (m.step entropy).withDialect d := by
  by_cases hf : fetchable m.registers.pc = true
  · have hf' : fetchable (m.withDialect d).registers.pc = true := hf
    rw [step_eq, step_eq, if_pos hf, if_pos hf', carryOut_withDialect entropy hf h]
    cases m.carryOut entropy with
    | ok effect => rfl
    | error broken => rfl
  · have hf' : fetchable m.registers.pc = false := Bool.eq_false_iff.2 hf
    rw [step_of_not_fetchable hf', step_of_not_fetchable (m := m.withDialect d) hf']
    rfl

namespace Machine

/-- A machine disputes nothing with its own dialect. -/
theorem disputes_self (m : Machine) : m.disputes m.registers.dialect = false := by
  have hno : ∀ i, Instruction.disputed m.registers.dialect m.registers.dialect m.registers i =
      false := by
    intro i
    unfold Instruction.disputed
    split <;> simp only [bne_self_eq_false, Bool.false_and]
  unfold disputes
  cases m.instruction? with
  | none => exact Bool.and_false _
  | some i => rw [Option.any_some, hno, Bool.and_false]

/-- Any step is undisputed between a dialect and itself, so it does not change the dialect. -/
theorem dialect_step (m : Machine) (entropy : List UInt8) :
    (m.step entropy).machine.registers.dialect = m.registers.dialect := by
  have h : m.step entropy = (m.step entropy).withDialect m.registers.dialect :=
    m.step_withDialect entropy m.disputes_self
  rw [h]
  rfl

/-- After a block transfer on which the dialects differ, only the index tells. -/
theorem step_apartByIndex {m : Machine} {d : Dialect} (entropy : List UInt8) {x : Reg}
    (hf : fetchable m.registers.pc = true)
    (hi : m.instruction? = some (.storeRegisters x) ∨ m.instruction? = some (.loadRegisters x))
    (hd : m.registers.dialect.advancesIndex ≠ d.advancesIndex) :
    Outcome.ApartByIndex d (UInt16.ofNat (x.val + 1)) (m.step entropy)
      ((m.withDialect d).step entropy) := by
  have hf' : fetchable (m.withDialect d).registers.pc = true := hf
  rcases hi with hi | hi
  · have hi' : (m.withDialect d).instruction? = some (.storeRegisters x) := hi
    have hstored : m.recorded.registers.dialect.advancesIndex ≠ d.advancesIndex := hd
    rw [step_of_ok hf (carryOut_of_some hi entropy), step_of_ok hf' (carryOut_of_some hi' entropy)]
    exact ⟨⟨rfl, rfl⟩, rfl, rfl, rfl, Registers.advanceIndex_apart hstored (x.val + 1)⟩
  · have hi' : (m.withDialect d).instruction? = some (.loadRegisters x) := hi
    have hloaded : (m.recorded.registers.putUpTo x fun k =>
        m.memory.read (m.registers.i.toNat + k)).dialect.advancesIndex ≠ d.advancesIndex := hd
    rw [step_of_ok hf (carryOut_of_some hi entropy), step_of_ok hf' (carryOut_of_some hi' entropy)]
    exact ⟨⟨rfl, rfl⟩, rfl, rfl, rfl, Registers.advanceIndex_apart hloaded (x.val + 1)⟩

end Machine

/-! ## Runs -/

namespace Run

def withDialect (r : Run) (d : Dialect) : Run :=
  { r with machine := r.machine.withDialect d }

theorem step_withDialect {r : Run} {d : Dialect} (h : r.machine.disputes d = false) :
    (r.withDialect d).step = r.step.withDialect d := by
  have ho : (r.withDialect d).machine.step (r.withDialect d).entropy = _ :=
    Machine.step_withDialect r.entropy h
  unfold step
  simp only [ho]
  rfl

/-- Up to the first step that is disputed, runs in two dialects come to the same. -/
theorem steps_withDialect (n : Nat) {r : Run} {d : Dialect}
    (h : ∀ j < n, (r.steps j).fault = none → (r.steps j).machine.disputes d = false) :
    (r.withDialect d).steps n = (r.steps n).withDialect d := by
  induction n generalizing r with
  | zero => rfl
  | succ n ih =>
    cases hfault : r.fault with
    | some fault =>
      have hsome : r.fault.isSome = true := by rw [hfault]; rfl
      rw [steps_of_fault hsome, steps_of_fault (r := r.withDialect d) hsome]
    | none =>
      have hnone : ¬ r.fault.isSome = true := by simp [hfault]
      have hnext : ∀ j, r.steps (j + 1) = r.step.steps j := fun j => if_neg hnone
      have hnext' : (r.withDialect d).steps (n + 1) = (r.withDialect d).step.steps n := if_neg hnone
      have hfirst : r.machine.disputes d = false := h 0 (Nat.succ_pos n) hfault
      rw [hnext, hnext', step_withDialect hfirst]
      refine ih fun j hj => ?_
      rw [← hnext]
      exact h (j + 1) (Nat.succ_lt_succ hj)

end Run

/-! ## Requests -/

def Rig.withDialect (r : Rig) (d : Dialect) : Rig :=
  r.withMachine (r.machine.withDialect d)

def Response.withDialect (a : Response) (d : Dialect) : Response :=
  { a with rig := a.rig.withDialect d }

namespace Rig

/-- How many steps a request asks for. -/
def stepsAsked (r : Rig) : Request → Nat
  | .step => 1
  | .run n => n
  | .update => r.machine.clock.stepsDue r.now
  | _ => 0

/-- The machine at the first step of a request. An update counts the time before that. -/
def primed (r : Rig) : Request → Machine
  | .update => { r.machine with clock := r.machine.clock.advance r.now }
  | _ => r.machine

/-- What a request has come to after `k` steps. -/
def course (r : Rig) (q : Request) (k : Nat) : Run :=
  (r.primed q).run r.entropy k

/-- None of the first `k` steps of a request is disputed between the dialect of the machine and
another one. -/
def Undisputed (r : Rig) (d : Dialect) (q : Request) (k : Nat) : Prop :=
  ∀ j < k, (r.course q j).fault = none → (r.course q j).machine.disputes d = false

/-- None of the steps that the requests ask for is disputed. -/
def AllUndisputed (r : Rig) (d : Dialect) : List Request → Prop
  | [] => True
  | q :: qs => r.Undisputed d q (r.stepsAsked q) ∧ (r.apply q).rig.AllUndisputed d qs

instance (r : Rig) (d : Dialect) (q : Request) (k : Nat) : Decidable (r.Undisputed d q k) :=
  inferInstanceAs (Decidable (∀ j < k, _ → _))

theorem primed_withDialect (r : Rig) (d : Dialect) (q : Request) :
    (r.withDialect d).primed q = (r.primed q).withDialect d := by
  cases q <;> rfl

theorem course_withDialect {r : Rig} {d : Dialect} {q : Request} {k : Nat}
    (h : r.Undisputed d q k) :
    (r.withDialect d).course q k = (r.course q k).withDialect d := by
  unfold course
  rw [primed_withDialect]
  exact Run.steps_withDialect k (r := .start (r.primed q) r.entropy) h

theorem throughHandle_withDialect (r : Rig) (d : Dialect) (handle : Handle)
    (change : Keypad → Keypad) :
    (r.withDialect d).throughHandle handle change =
      (r.throughHandle handle change).withDialect d := by
  unfold throughHandle
  change (if handle.keypad = r.keypad then _ else _) = _
  split <;> rfl

/-- A request in which no disputed step is carried out is answered alike in another dialect. Only
what is saved shows the dialect itself. -/
theorem apply_withDialect {r : Rig} {d : Dialect} {q : Request} (hq : q.IsPlain) (hsave : q ≠ .save)
    (h : r.Undisputed d q (r.stepsAsked q)) :
    (r.withDialect d).apply q = (r.apply q).withDialect d := by
  have hcourse := course_withDialect h
  cases q with
  | load program =>
    by_cases hle : program.size ≤ Memory.maxProgramSize
    · rw [r.apply_load_of_le hle, (r.withDialect d).apply_load_of_le hle, Machine.reset_fst,
        Machine.reset_fst]
      rfl
    · rw [r.apply_load_of_lt (Nat.not_le.1 hle), (r.withDialect d).apply_load_of_lt
        (Nat.not_le.1 hle)]
      rfl
  | reset =>
    rw [apply_reset, apply_reset, Machine.reset_fst, Machine.reset_fst, Machine.reset_snd,
      Machine.reset_snd]
    rfl
  | pressBy handle code =>
    exact congrArg (·.quiet .done) (r.throughHandle_withDialect d handle (·.press code))
  | releaseBy handle code =>
    exact congrArg (·.quiet .done) (r.throughHandle_withDialect d handle (·.release code))
  | step =>
    have hstep : (r.withDialect d).machine.step (r.withDialect d).entropy = _ :=
      Machine.step_withDialect r.entropy (h 0 Nat.one_pos rfl)
    rw [apply_step, apply_step, hstep]
    rfl
  | run n =>
    have hrun : (r.withDialect d).machine.run (r.withDialect d).entropy n = _ := hcourse
    rw [apply_run, apply_run, hrun]
    rfl
  | update =>
    have hrun : (r.withDialect d).machine.update (r.withDialect d).now (r.withDialect d).entropy =
      _ := hcourse
    rw [apply_update, apply_update, hrun]
    rfl
  | save => exact absurd rfl hsave
  | restore bytes | drive maxSteps deltas recorder => exact hq.elim
  | _ => rfl

/-- In its own dialect nothing that a rig does is disputed. -/
theorem undisputed_self (r : Rig) (q : Request) (k : Nat) :
    r.Undisputed r.machine.registers.dialect q k := by
  intro j _ _
  have hprimed : (r.primed q).registers.dialect = r.machine.registers.dialect := by
    cases q <;> rfl
  have hdialect : (r.course q j).machine.registers.dialect = r.machine.registers.dialect :=
    Run.steps_machine (P := fun m => m.registers.dialect = r.machine.registers.dialect)
      (fun m entropy h => (m.dialect_step entropy).trans h) j hprimed
  rw [← hdialect]
  exact Machine.disputes_self _

/-- No request that leaves the state to the machine changes the dialect. -/
theorem dialect_apply (r : Rig) {q : Request} (hq : q.IsPlain) :
    (r.apply q).rig.machine.registers.dialect = r.machine.registers.dialect := by
  by_cases hsave : q = .save
  · rw [hsave]
    rfl
  · have h : r.apply q = (r.apply q).withDialect r.machine.registers.dialect :=
      apply_withDialect hq hsave (r.undisputed_self q _)
    rw [h]
    rfl

/-- Requests in which no disputed step is carried out are answered alike in another dialect. -/
theorem responses_withDialect {r : Rig} {d : Dialect} {qs : List Request}
    (hqs : ∀ q ∈ qs, q.IsPlain ∧ q ≠ .save) (h : r.AllUndisputed d qs) :
    (r.withDialect d).responses qs = (r.responses qs).map (·.withDialect d) ∧
      (r.withDialect d).after qs = (r.after qs).withDialect d := by
  induction qs generalizing r with
  | nil => exact ⟨rfl, rfl⟩
  | cons q qs ih =>
    obtain ⟨hq, hsave⟩ := hqs q List.mem_cons_self
    have happly : (r.withDialect d).apply q = (r.apply q).withDialect d :=
      apply_withDialect hq hsave h.1
    have hrest : ((r.apply q).rig.withDialect d).responses qs = _ ∧ _ :=
      ih (fun p hp => hqs p (List.mem_cons_of_mem q hp)) h.2
    unfold responses after
    rw [happly]
    exact ⟨congrArg ((r.apply q).withDialect d :: ·) hrest.1, hrest.2⟩

/-- **What a dialect can change.** Take a rig and the same rig with a machine of another dialect,
and ask both for the same. As long as the steps are undisputed, replies and reports are the same,
and the rigs differ in nothing but the dialect; so they do in the middle of a request, up to its
first disputed step. If that is a block transfer, the machines still differ only in the index
after it, which one of them has moved past the bytes. The dialect itself is changed by no request
but a restore, and a restore of what was saved brings the dialect of the saved machine. -/
theorem dialect_confined (r : Rig) (d : Dialect) :
    (∀ qs : List Request, (∀ q ∈ qs, q.IsPlain ∧ q ≠ .save) → r.AllUndisputed d qs →
      (r.withDialect d).responses qs = (r.responses qs).map (·.withDialect d) ∧
      ∀ q k, (r.after qs).Undisputed d q k →
        ((r.withDialect d).after qs).course q k = ((r.after qs).course q k).withDialect d) ∧
    (∀ (m : Machine) (entropy : List UInt8) (x : Reg),
      Machine.fetchable m.registers.pc = true →
      (m.instruction? = some (.storeRegisters x) ∨ m.instruction? = some (.loadRegisters x)) →
      m.registers.dialect.advancesIndex ≠ d.advancesIndex →
      Outcome.ApartByIndex d (UInt16.ofNat (x.val + 1)) (m.step entropy)
        ((m.withDialect d).step entropy)) ∧
    (∀ q : Request, q.IsPlain →
      (r.apply q).rig.machine.registers.dialect = r.machine.registers.dialect) ∧
    ∀ m : Machine, m.program.size < UInt64.size →
      (r.apply (.restore m.save)).rig.machine.registers.dialect = m.registers.dialect := by
  refine ⟨fun qs hqs h => ?_, fun m entropy x => Machine.step_apartByIndex entropy,
    fun q hq => r.dialect_apply hq, fun m hm => ?_⟩
  · obtain ⟨hresponses, hafter⟩ := responses_withDialect hqs h
    refine ⟨hresponses, fun q k hk => ?_⟩
    rw [hafter]
    exact course_withDialect hk
  · rw [r.apply_restore_of_ok (Machine.restore_save r.now hm)]
    rfl

/-- The program shifts a register by itself, which is undisputed, and then stores two registers. -/
theorem dialect_confined_stored :
    let r := (Rig.start 500 ⟨false, false⟩ 0 []).after
      [.load #[0x61, 0x05, 0x81, 0x16, 0xF1, 0x55]]
    let d : Dialect := ⟨true, true⟩
    let qs := [.press 3, .run 1, .displayFrame]
    let m := ((r.after qs).course (.run 5) 1).machine
    ((∀ q ∈ qs, q.IsPlain ∧ q ≠ .save) ∧ r.AllUndisputed d qs ∧
      (r.withDialect d).responses qs = (r.responses qs).map (·.withDialect d)) ∧
    ((r.after qs).Undisputed d (.run 5) 1 ∧
      ((r.withDialect d).after qs).course (.run 5) 1 =
        ((r.after qs).course (.run 5) 1).withDialect d) ∧
    (Machine.fetchable m.registers.pc = true ∧ m.instruction? = some (.storeRegisters 1) ∧
      m.registers.dialect.advancesIndex ≠ d.advancesIndex ∧
      Outcome.ApartByIndex d 2 (m.step []) ((m.withDialect d).step [])) ∧
    (Request.IsPlain .reset ∧
      (r.apply .reset).rig.machine.registers.dialect = r.machine.registers.dialect) ∧
    m.program.size < UInt64.size ∧
      (r.apply (.restore m.save)).rig.machine.registers.dialect = m.registers.dialect := by
  intro r d qs m
  obtain ⟨hagree, hapart, hkept, hrestored⟩ := r.dialect_confined d
  have hqs : ∀ q ∈ qs, q.IsPlain ∧ q ≠ .save := by simp [qs, Request.IsPlain]
  have hundisputed : r.AllUndisputed d qs := ⟨by decide +kernel, by decide +kernel,
    by decide +kernel, trivial⟩
  have hfirst : (r.after qs).Undisputed d (.run 5) 1 := by decide +kernel
  have hf : Machine.fetchable m.registers.pc = true := by decide +kernel
  have hi : m.instruction? = some (.storeRegisters 1) := by decide +kernel
  have hd : m.registers.dialect.advancesIndex ≠ d.advancesIndex := by decide +kernel
  have hsize : m.program.size < UInt64.size := by decide +kernel
  obtain ⟨hresponses, hcourse⟩ := hagree qs hqs hundisputed
  exact ⟨⟨hqs, hundisputed, hresponses⟩, ⟨hfirst, hcourse _ 1 hfirst⟩,
    ⟨hf, hi, hd, hapart m [] 1 hf (.inl hi) hd⟩, ⟨trivial, hkept _ trivial⟩,
    hsize, hrestored m hsize⟩

end Rig
end ChipEight
