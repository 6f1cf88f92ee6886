import ChipEight.Machine.Run

/-!
# What a step can do

A step either finds the program counter outside of program memory, or passes over a word that
stands for nothing, or carries an instruction out, or breaks off in the middle of a call or a
return; `Machine.step_eq` is the one place where the step is opened. The instructions are opened
here once for each part of the machine: which of them touch the clock, the keypad or the mode
(`Machine.clock_execute` and so on), and how they move the program counter and the stack
(`Registers.Flow`). Whatever is said about all steps elsewhere is derived from these.
-/

namespace ChipEight

namespace Registers

/-! ## Registers

The operations that only move data leave alone what decides where a program goes on.
-/

@[simp] theorem pc_putFlagged (r : Registers) (x : Reg) (p : UInt8 × Option UInt8) :
    (r.putFlagged x p).pc = r.pc := by
  rcases p with ⟨b, _ | flag⟩ <;> rfl

@[simp] theorem sp_putFlagged (r : Registers) (x : Reg) (p : UInt8 × Option UInt8) :
    (r.putFlagged x p).sp = r.sp := by
  rcases p with ⟨b, _ | flag⟩ <;> rfl

@[simp] theorem stack_putFlagged (r : Registers) (x : Reg) (p : UInt8 × Option UInt8) :
    (r.putFlagged x p).stack = r.stack := by
  rcases p with ⟨b, _ | flag⟩ <;> rfl

@[simp] theorem mode_putFlagged (r : Registers) (x : Reg) (p : UInt8 × Option UInt8) :
    (r.putFlagged x p).mode = r.mode := by
  rcases p with ⟨b, _ | flag⟩ <;> rfl

@[simp] theorem index_putFlagged (r : Registers) (x : Reg) (p : UInt8 × Option UInt8) :
    (r.putFlagged x p).i = r.i := by
  rcases p with ⟨b, _ | flag⟩ <;> rfl

@[simp] theorem pc_advanceIndex (r : Registers) (n : Nat) : (r.advanceIndex n).pc = r.pc := by
  unfold advanceIndex
  split <;> rfl

@[simp] theorem sp_advanceIndex (r : Registers) (n : Nat) : (r.advanceIndex n).sp = r.sp := by
  unfold advanceIndex
  split <;> rfl

@[simp] theorem stack_advanceIndex (r : Registers) (n : Nat) :
    (r.advanceIndex n).stack = r.stack := by
  unfold advanceIndex
  split <;> rfl

@[simp] theorem mode_advanceIndex (r : Registers) (n : Nat) :
    (r.advanceIndex n).mode = r.mode := by
  unfold advanceIndex
  split <;> rfl

/-- How the program counter and the stack move under an instruction, or under a word that stands
for none. -/
inductive Flow (r : Registers) : Option Instruction → Registers → Prop where
  | straight {i : Option Instruction} {r' : Registers} (hsp : r'.sp = r.sp)
      (hstack : r'.stack = r.stack) (hpc : r'.pc = r.pc ∨ r'.pc = r.pc + 2 ∨ r'.pc = r.pc + 4) :
    Flow r i r'
  | jump {nnn : Address} {r' : Registers} (hsp : r'.sp = r.sp) (hstack : r'.stack = r.stack)
      (hpc : r'.pc = UInt64.ofNat nnn.val) :
    Flow r (some (.jump nnn)) r'
  | jumpBy {nnn : Address} {r' : Registers} (hsp : r'.sp = r.sp) (hstack : r'.stack = r.stack)
      (hpc : r'.pc = UInt64.ofNat nnn.val + (r.get .first).toUInt64) :
    Flow r (some (.jumpBy nnn)) r'
  | call {nnn : Address} {r' : Registers} (h : r.sp.toNat < 16) (hsp : r'.sp = r.sp + 1)
      (hstack : r'.stack = r.stack.set r.sp.toNat r.pc) (hpc : r'.pc = UInt64.ofNat nnn.val) :
    Flow r (some (.call nnn)) r'
  | ret {r' : Registers} {k : Nat} (h : k < 16) (htop : r.sp.toNat = k + 1)
      (hsp : r'.sp = r.sp - 1) (hstack : r'.stack = r.stack) (hpc : r'.pc = r.stack[k] + 2) :
    Flow r (some .ret) r'

/-! ## Calls and returns -/

/-- A call takes the next slot of the stack if there is one, and else changes nothing. -/
theorem call_cases (r : Registers) (target : UInt64) :
    (∃ h : r.sp.toNat < 16, r.call target =
      .ok { r with stack := r.stack.set r.sp.toNat r.pc, sp := r.sp + 1, pc := target }) ∨
    (16 ≤ r.sp.toNat ∧ r.call target = .error r) := by
  unfold call
  by_cases h : r.sp.toNat < 16
  · exact .inl ⟨h, dif_pos h⟩
  · exact .inr ⟨Nat.not_lt.1 h, dif_neg h⟩

/-- A return on a stack that is not empty goes on behind the call in the topmost slot, unless the
stack pointer lies outside of the stack; then it has only been moved. -/
theorem ret_cases (r : Registers) (hsp : r.sp ≠ 0) :
    (∃ k, ∃ _ : k < 16, r.sp.toNat = k + 1 ∧
      r.ret = .ok { r with sp := r.sp - 1, pc := r.stack[k] + 2 }) ∨
    (16 < r.sp.toNat ∧ r.ret = .error { r with sp := r.sp - 1 }) := by
  have hpos : 0 < r.sp.toNat := Nat.pos_of_ne_zero fun h => hsp (UInt64.toNat_inj.1 h)
  unfold ret
  by_cases h : r.sp.toNat ≤ 16
  · refine .inl ⟨r.sp.toNat - 1, by omega, by omega, ?_⟩
    exact dif_pos ⟨hpos, h⟩
  · exact .inr ⟨Nat.not_le.1 h, dif_neg fun hh => h hh.2⟩

/-- A change of registers that has nothing to do with where a program goes on. -/
def SparesFlow (change : Registers → Registers) : Prop :=
  ∀ r pc sp stack, change { r with pc, sp, stack } = { change r with pc, sp, stack }

namespace SparesFlow

variable {change : Registers → Registers} (h : SparesFlow change) (r : Registers)

include h

/-- A call may come before or after the change. -/
theorem call (target : UInt64) :
    (change r).call target =
      match r.call target with
      | .ok r' => .ok (change r')
      | .error r' => .error (change r') := by
  have hself : change r = { change r with pc := r.pc, sp := r.sp, stack := r.stack } :=
    h r r.pc r.sp r.stack
  rcases r.call_cases target with ⟨hb, hr⟩ | ⟨hb, hr⟩
  · rw [hr, hself]
    exact (dif_pos hb).trans (congrArg Except.ok (h ..).symm)
  · rw [hr, hself]
    exact (dif_neg (Nat.not_lt.2 hb)).trans (congrArg Except.error hself.symm)

/-- A return may come before or after the change. -/
theorem ret :
    (change r).ret =
      match r.ret with
      | .ok r' => .ok (change r')
      | .error r' => .error (change r') := by
  have hself : change r = { change r with pc := r.pc, sp := r.sp, stack := r.stack } :=
    h r r.pc r.sp r.stack
  by_cases hk : 0 < r.sp.toNat ∧ r.sp.toNat ≤ 16
  · have hr : r.ret = .ok _ := dif_pos hk
    rw [hr, hself]
    exact (dif_pos hk).trans (congrArg Except.ok (h ..).symm)
  · have hr : r.ret = .error _ := dif_neg hk
    rw [hr, hself]
    exact (dif_neg hk).trans (congrArg Except.error (h r r.pc (r.sp - 1) r.stack).symm)

end SparesFlow

end Registers

namespace Machine

/-! ## One step -/

def nextWord (m : Machine) : UInt16 :=
  m.memory.word m.registers.pc.toNat

/-- The instruction at the program counter, if its word stands for one. -/
def instruction? (m : Machine) : Option Instruction :=
  Instruction.ofWord? m.nextWord

/-- The machine with the word at the program counter on record. -/
def recorded (m : Machine) : Machine :=
  { m with registers := m.registers.record m.nextWord }

/-- What carrying out the word at the program counter comes to. -/
def carryOut (m : Machine) (entropy : List UInt8) : Except Machine Effect :=
  match m.instruction? with
  | some i => m.recorded.execute entropy i
  | none => .ok ⟨{ m.recorded with registers := m.recorded.registers.next }, entropy,
      [.undocumented m.nextWord]⟩

theorem carryOut_of_some {m : Machine} {i : Instruction} (h : m.instruction? = some i)
    (entropy : List UInt8) : m.carryOut entropy = m.recorded.execute entropy i := by
  unfold carryOut
  rw [h]

theorem carryOut_of_none {m : Machine} (h : m.instruction? = none) (entropy : List UInt8) :
    m.carryOut entropy = .ok ⟨{ m.recorded with registers := m.recorded.registers.next },
      entropy, [.undocumented m.nextWord]⟩ := by
  unfold carryOut
  rw [h]

/-- What an instruction leaves of the machine, also where it breaks off. -/
def left : Except Machine Effect → Machine
  | .ok effect => effect.machine
  | .error broken => broken

theorem fetchable_iff {pc : UInt64} :
    fetchable pc = true ↔ 0x200 ≤ pc.toNat ∧ pc.toNat ≤ 0xFFE := by
  unfold fetchable
  rw [Bool.and_eq_true, decide_eq_true_eq, decide_eq_true_eq]

/-- A step, by what is carried out in it. -/
theorem step_eq (m : Machine) (entropy : List UInt8) :
    m.step entropy =
      if fetchable m.registers.pc then
        match m.carryOut entropy with
        | .ok effect => ⟨none, effect.machine, effect.entropy,
            .fetched m.registers.pc m.nextWord :: effect.events⟩
        | .error broken => ⟨some .stackOutOfRange, broken, entropy,
            [.fetched m.registers.pc m.nextWord]⟩
      else
        ⟨some (.halted m.registers.pc), m, entropy, [.outOfBounds m.registers.pc]⟩ :=
  rfl

theorem step_of_not_fetchable {m : Machine} (h : fetchable m.registers.pc = false)
    (entropy : List UInt8) :
    m.step entropy =
      ⟨some (.halted m.registers.pc), m, entropy, [.outOfBounds m.registers.pc]⟩ := by
  rw [step_eq, h]
  rfl

theorem step_of_ok {m : Machine} {entropy : List UInt8} {effect : Effect}
    (h : fetchable m.registers.pc = true) (he : m.carryOut entropy = .ok effect) :
    m.step entropy = ⟨none, effect.machine, effect.entropy,
      .fetched m.registers.pc m.nextWord :: effect.events⟩ := by
  rw [step_eq, if_pos h, he]

/-- The machine after a step is what has been carried out, finished or not. -/
theorem machine_step (m : Machine) (entropy : List UInt8) :
    (m.step entropy).machine =
      if fetchable m.registers.pc then left (m.carryOut entropy) else m := by
  rw [step_eq]
  split
  · cases m.carryOut entropy <;> rfl
  · rfl

/-- A step faults if nothing can be fetched, or if what is fetched breaks off. -/
theorem fault_step (m : Machine) (entropy : List UInt8) :
    (m.step entropy).fault =
      if fetchable m.registers.pc then
        match m.carryOut entropy with
        | .ok _ => none
        | .error _ => some .stackOutOfRange
      else some (.halted m.registers.pc) := by
  rw [step_eq]
  split
  · cases m.carryOut entropy <;> rfl
  · rfl

/-- What is fetched is reported. -/
theorem fetched_mem_step {m : Machine} (h : fetchable m.registers.pc = true)
    (entropy : List UInt8) :
    Event.fetched m.registers.pc m.nextWord ∈ (m.step entropy).events := by
  rw [step_eq, if_pos h]
  split
  · exact List.mem_cons_self
  · exact List.mem_cons_self

/-! ## Instructions, one part of the machine at a time -/

/-- A return is passed over, or carried out, or breaks off. -/
theorem execute_ret_cases (m : Machine) (entropy : List UInt8) :
    (m.registers.sp = 0 ∧ m.execute entropy .ret =
      .ok ⟨{ m with registers := m.registers.next }, entropy, [.stackUnderflow m.registers.pc]⟩) ∨
    (∃ k, ∃ _ : k < 16, m.registers.sp.toNat = k + 1 ∧ m.execute entropy .ret =
      .ok ⟨{ m with registers :=
        { m.registers with sp := m.registers.sp - 1, pc := m.registers.stack[k] + 2 } },
        entropy, []⟩) ∨
    (16 < m.registers.sp.toNat ∧ m.execute entropy .ret =
      .error { m with registers := { m.registers with sp := m.registers.sp - 1 } }) := by
  simp only [execute]
  by_cases hsp : m.registers.sp = 0
  · exact .inl ⟨hsp, if_pos hsp⟩
  · rw [if_neg hsp]
    obtain ⟨k, hk, htop, hr⟩ | ⟨hb, hr⟩ := m.registers.ret_cases hsp
    · exact .inr (.inl ⟨k, hk, htop, by rw [hr]; rfl⟩)
    · exact .inr (.inr ⟨hb, by rw [hr]; rfl⟩)

/-- A call is passed over, or carried out, or breaks off. -/
theorem execute_call_cases (m : Machine) (entropy : List UInt8) (nnn : Address) :
    (m.registers.sp = 16 ∧ m.execute entropy (.call nnn) =
      .ok ⟨{ m with registers := m.registers.next }, entropy,
        [.stackOverflow nnn m.registers.pc]⟩) ∨
    (∃ h : m.registers.sp.toNat < 16, m.execute entropy (.call nnn) =
      .ok ⟨{ m with registers :=
        { m.registers with
          stack := m.registers.stack.set m.registers.sp.toNat m.registers.pc
          sp := m.registers.sp + 1
          pc := UInt64.ofNat nnn.val } }, entropy, []⟩) ∨
    (16 < m.registers.sp.toNat ∧ m.execute entropy (.call nnn) = .error m) := by
  simp only [execute]
  by_cases hsp : m.registers.sp = 16
  · exact .inl ⟨hsp, if_pos hsp⟩
  · have hne : m.registers.sp.toNat ≠ 16 := fun h => hsp (UInt64.toNat_inj.1 h)
    rw [if_neg hsp]
    obtain ⟨hb, hr⟩ | ⟨hb, hr⟩ := m.registers.call_cases (UInt64.ofNat nnn.val)
    · exact .inr (.inl ⟨hb, by rw [hr]; rfl⟩)
    · exact .inr (.inr ⟨by omega, by rw [hr]; rfl⟩)

theorem execute_awaitKey (m : Machine) (entropy : List UInt8) (x : Reg) :
    m.execute entropy (.awaitKey x) = .ok (m.awaitKey entropy x) :=
  rfl

/-- In a program that runs, waiting for a key parks it and empties the latch. -/
theorem awaitKey_of_running {m : Machine} (h : m.registers.mode = .running)
    (entropy : List UInt8) (x : Reg) :
    m.awaitKey entropy x =
      ⟨{ m with
          keypad := m.keypad.beginWait
          registers := { m.registers with mode := .awaitingKey } },
        entropy, [.awaitingKey x]⟩ := by
  simp only [awaitKey, h]

theorem awaitKey_of_none {m : Machine} (h : m.registers.mode = .awaitingKey)
    (hlatch : m.keypad.latch = none) (entropy : List UInt8) (x : Reg) :
    m.awaitKey entropy x = ⟨m, entropy, []⟩ := by
  have hk : m.keypad.beginWait = m.keypad := by simp only [Keypad.beginWait, ← hlatch]
  simp only [awaitKey, h, Keypad.takePress, hlatch, hk]

/-- A program that is parked goes on with the latched key in its register. -/
theorem awaitKey_of_some {m : Machine} {key : Digit} (h : m.registers.mode = .awaitingKey)
    (hlatch : m.keypad.latch = some key) (entropy : List UInt8) (x : Reg) :
    m.awaitKey entropy x =
      ⟨{ m with
          keypad := m.keypad.beginWait
          registers := ({ m.registers with mode := .running }.put x (UInt8.ofNat key.val)).next },
        entropy, [.keyTaken key x]⟩ := by
  simp only [awaitKey, h, Keypad.takePress, hlatch]

/-- Waiting for a key parks the program, or goes on waiting, or takes the latched key. -/
theorem awaitKey_cases (m : Machine) (entropy : List UInt8) (x : Reg) :
    (m.registers.mode = .running ∧ m.awaitKey entropy x =
      ⟨{ m with
          keypad := m.keypad.beginWait
          registers := { m.registers with mode := .awaitingKey } },
        entropy, [.awaitingKey x]⟩) ∨
    (m.registers.mode = .awaitingKey ∧ m.keypad.latch = none ∧
      m.awaitKey entropy x = ⟨m, entropy, []⟩) ∨
    (m.registers.mode = .awaitingKey ∧ ∃ key, m.keypad.latch = some key ∧ m.awaitKey entropy x =
      ⟨{ m with
          keypad := m.keypad.beginWait
          registers := ({ m.registers with mode := .running }.put x (UInt8.ofNat key.val)).next },
        entropy, [.keyTaken key x]⟩) := by
  cases hmode : m.registers.mode with
  | running => exact .inl ⟨rfl, awaitKey_of_running hmode entropy x⟩
  | awaitingKey =>
    cases hlatch : m.keypad.latch with
    | none => exact .inr (.inl ⟨rfl, rfl, awaitKey_of_none hmode hlatch entropy x⟩)
    | some key => exact .inr (.inr ⟨rfl, key, rfl, awaitKey_of_some hmode hlatch entropy x⟩)

/-- A return moves the stack pointer and the program counter, and nothing else. -/
theorem left_ret (m : Machine) (entropy : List UInt8) :
    ∃ sp pc, left (m.execute entropy .ret) =
      { m with registers := { m.registers with sp, pc } } := by
  obtain ⟨_, h⟩ | ⟨_, _, _, h⟩ | ⟨_, h⟩ := m.execute_ret_cases entropy <;> rw [h] <;>
    exact ⟨_, _, rfl⟩

/-- A call moves them as well, and writes to the stack. -/
theorem left_call (m : Machine) (entropy : List UInt8) (nnn : Address) :
    ∃ stack sp pc, left (m.execute entropy (.call nnn)) =
      { m with registers := { m.registers with stack, sp, pc } } := by
  obtain ⟨_, h⟩ | ⟨_, h⟩ | ⟨_, h⟩ := m.execute_call_cases entropy nnn <;> rw [h] <;>
    exact ⟨_, _, _, rfl⟩

/-- Waiting for a key goes on with the latch, the mode, the program counter and the registers. -/
theorem left_awaitKey (m : Machine) (entropy : List UInt8) (x : Reg) :
    ∃ latch mode pc v, left (m.execute entropy (.awaitKey x)) =
      { m with
        keypad := { m.keypad with latch }
        registers := { m.registers with mode, pc, v } } := by
  rw [execute_awaitKey]
  obtain ⟨_, h⟩ | ⟨_, _, h⟩ | ⟨_, _, _, h⟩ := m.awaitKey_cases entropy x <;> rw [h] <;>
    exact ⟨_, _, _, _, rfl⟩

/-- No instruction touches the remembered program. -/
theorem program_execute (m : Machine) (entropy : List UInt8) (i : Instruction) :
    (left (m.execute entropy i)).program = m.program := by
  cases i with
  | ret =>
    obtain ⟨_, _, h⟩ := m.left_ret entropy
    rw [h]
  | call nnn =>
    obtain ⟨_, _, _, h⟩ := m.left_call entropy nnn
    rw [h]
  | awaitKey x =>
    obtain ⟨_, _, _, _, h⟩ := m.left_awaitKey entropy x
    rw [h]
  | _ => rfl

/-- Of all instructions two touch the clock, and these only set a timer. -/
theorem clock_execute (m : Machine) (entropy : List UInt8) (i : Instruction) :
    (left (m.execute entropy i)).clock =
      match i with
      | .setDelay x => { m.clock with delay := m.registers.get x }
      | .setSound x => { m.clock with sound := m.registers.get x }
      | _ => m.clock := by
  cases i with
  | ret =>
    obtain ⟨_, _, h⟩ := m.left_ret entropy
    rw [h]
  | call nnn =>
    obtain ⟨_, _, _, h⟩ := m.left_call entropy nnn
    rw [h]
  | awaitKey x =>
    obtain ⟨_, _, _, _, h⟩ := m.left_awaitKey entropy x
    rw [h]
  | _ => rfl

/-- Only a program that waits for a key changes the mode. -/
theorem mode_execute {m : Machine} {entropy : List UInt8} {i : Instruction}
    (h : ∀ x, i ≠ .awaitKey x) :
    (left (m.execute entropy i)).registers.mode = m.registers.mode := by
  cases i with
  | ret =>
    obtain ⟨_, _, h⟩ := m.left_ret entropy
    rw [h]
  | call nnn =>
    obtain ⟨_, _, _, h⟩ := m.left_call entropy nnn
    rw [h]
  | awaitKey x => exact absurd rfl (h x)
  | alu op x y => exact Registers.mode_putFlagged ..
  | storeRegisters x | loadRegisters x => exact Registers.mode_advanceIndex ..
  | _ => rfl

/-- Only a program that waits for a key touches the keypad. -/
theorem keypad_execute {m : Machine} {entropy : List UInt8} {i : Instruction}
    (h : ∀ x, i ≠ .awaitKey x) :
    (left (m.execute entropy i)).keypad = m.keypad := by
  cases i with
  | ret =>
    obtain ⟨_, _, h⟩ := m.left_ret entropy
    rw [h]
  | call nnn =>
    obtain ⟨_, _, _, h⟩ := m.left_call entropy nnn
    rw [h]
  | awaitKey x => exact absurd rfl (h x)
  | _ => rfl

/-- Of all instructions two touch the screen. -/
theorem screen_execute (m : Machine) (entropy : List UInt8) (i : Instruction) :
    (left (m.execute entropy i)).screen =
      match i with
      | .clearScreen => m.screen.clear
      | .draw x y n => (m.drawSprite x y n).screen
      | _ => m.screen := by
  cases i with
  | ret =>
    obtain ⟨_, _, h⟩ := m.left_ret entropy
    rw [h]
  | call nnn =>
    obtain ⟨_, _, _, h⟩ := m.left_call entropy nnn
    rw [h]
  | awaitKey x =>
    obtain ⟨_, _, _, _, h⟩ := m.left_awaitKey entropy x
    rw [h]
  | _ => rfl

/-! ## What an instruction reports -/

/-- The reports that an instruction can lead to while it is carried out. -/
inductive Reports : Instruction → List Event → Prop where
  | nothing (i : Instruction) : Reports i []
  | stackUnderflow (pc : UInt64) : Reports .ret [.stackUnderflow pc]
  | stackOverflow (nnn : Address) (pc : UInt64) : Reports (.call nnn) [.stackOverflow nnn pc]
  | noEntropy (x : Reg) (nn : UInt8) : Reports (.random x nn) [.noEntropy]
  | awaitingKey (x : Reg) : Reports (.awaitKey x) [.awaitingKey x]
  | keyTaken (key : Digit) (x : Reg) : Reports (.awaitKey x) [.keyTaken key x]

/-- An instruction that is carried out reports what its kind may report and nothing else. -/
theorem reports_execute {m : Machine} {entropy : List UInt8} {i : Instruction} {effect : Effect}
    (h : m.execute entropy i = .ok effect) : Reports i effect.events := by
  cases i with
  | ret =>
    obtain ⟨_, hr⟩ | ⟨_, _, _, hr⟩ | ⟨_, hr⟩ := m.execute_ret_cases entropy <;>
      rw [hr] at h <;> cases h
    · exact .stackUnderflow _
    · exact .nothing _
  | call nnn =>
    obtain ⟨_, hr⟩ | ⟨_, hr⟩ | ⟨_, hr⟩ := m.execute_call_cases entropy nnn <;>
      rw [hr] at h <;> cases h
    · exact .stackOverflow _ _
    · exact .nothing _
  | awaitKey x =>
    rw [execute_awaitKey] at h
    cases h
    obtain ⟨_, hr⟩ | ⟨_, _, hr⟩ | ⟨_, _, _, hr⟩ := m.awaitKey_cases entropy x <;> rw [hr]
    · exact .awaitingKey x
    · exact .nothing _
    · exact .keyTaken _ x
  | random x nn =>
    cases h
    cases entropy with
    | nil => exact .noEntropy x nn
    | cons b rest => exact .nothing _
  | _ => cases h; exact .nothing _

/-! ## Where a program goes on -/

theorem flow_skipIf (r : Registers) (i : Option Instruction) (condition : Bool) :
    Registers.Flow r i (r.skipIf condition) := by
  refine .straight rfl rfl ?_
  cases condition with
  | true => exact .inr (.inr rfl)
  | false => exact .inr (.inl rfl)

theorem flow_awaitKey (m : Machine) (entropy : List UInt8) (x : Reg) :
    Registers.Flow m.registers (some (.awaitKey x)) (m.awaitKey entropy x).machine.registers := by
  obtain ⟨_, h⟩ | ⟨_, _, h⟩ | ⟨_, _, _, h⟩ := m.awaitKey_cases entropy x <;> rw [h]
  · exact .straight rfl rfl (.inl rfl)
  · exact .straight rfl rfl (.inl rfl)
  · exact .straight rfl rfl (.inr (.inl rfl))

/-- An instruction moves the program counter and the stack as its kind says. -/
theorem flow_execute {m : Machine} {entropy : List UInt8} {i : Instruction} {effect : Effect}
    (h : m.execute entropy i = .ok effect) :
    Registers.Flow m.registers (some i) effect.machine.registers := by
  cases i with
  | ret =>
    obtain ⟨_, hr⟩ | ⟨k, hk, htop, hr⟩ | ⟨_, hr⟩ := m.execute_ret_cases entropy <;>
      rw [hr] at h <;> cases h
    · exact .straight rfl rfl (.inr (.inl rfl))
    · exact .ret hk htop rfl rfl rfl
  | call nnn =>
    obtain ⟨_, hr⟩ | ⟨hb, hr⟩ | ⟨_, hr⟩ := m.execute_call_cases entropy nnn <;>
      rw [hr] at h <;> cases h
    · exact .straight rfl rfl (.inr (.inl rfl))
    · exact .call hb rfl rfl rfl
  | jump nnn => cases h; exact .jump rfl rfl rfl
  | jumpBy nnn => cases h; exact .jumpBy rfl rfl rfl
  | skipIfByte x nn | skipUnlessByte x nn | skipIfSame x y | skipUnlessSame x y | skipIfHeld x
  | skipUnlessHeld x => cases h; exact flow_skipIf ..
  | awaitKey x => cases h; exact flow_awaitKey ..
  | alu op x y =>
    cases h
    refine .straight (Registers.sp_putFlagged ..) (Registers.stack_putFlagged ..) (.inr (.inl ?_))
    exact congrArg (· + 2) (Registers.pc_putFlagged ..)
  | storeRegisters x | loadRegisters x =>
    cases h
    refine .straight (Registers.sp_advanceIndex ..) (Registers.stack_advanceIndex ..)
      (.inr (.inl ?_))
    exact congrArg (· + 2) (Registers.pc_advanceIndex ..)
  | _ => cases h; exact .straight rfl rfl (.inr (.inl rfl))

/-- Whatever is fetched, the program counter and the stack move as its kind says. -/
theorem flow_carryOut {m : Machine} {entropy : List UInt8} {effect : Effect}
    (h : m.carryOut entropy = .ok effect) :
    Registers.Flow m.registers m.instruction? effect.machine.registers := by
  unfold carryOut at h
  split at h
  · next i hi =>
    rw [hi]
    -- what is on record plays no part in where a program goes on
    cases flow_execute h with
    | straight hsp hstack hpc => exact .straight hsp hstack hpc
    | jump hsp hstack hpc => exact .jump hsp hstack hpc
    | jumpBy hsp hstack hpc => exact .jumpBy hsp hstack hpc
    | call hb hsp hstack hpc => exact .call hb hsp hstack hpc
    | ret hk htop hsp hstack hpc => exact .ret hk htop hsp hstack hpc
  · cases h
    exact .straight rfl rfl (.inr (.inl rfl))

/-- An instruction breaks off only in a call or a return whose stack pointer lies beyond the
stack. -/
theorem execute_error_iff {m : Machine} {entropy : List UInt8} {i : Instruction} :
    (∃ broken, m.execute entropy i = .error broken) ↔
      (i = .ret ∨ ∃ nnn, i = .call nnn) ∧ 16 < m.registers.sp.toNat := by
  constructor
  · rintro ⟨broken, h⟩
    cases i with
    | ret =>
      obtain ⟨_, hr⟩ | ⟨_, _, _, hr⟩ | ⟨hb, _⟩ := m.execute_ret_cases entropy
      · rw [hr] at h
        cases h
      · rw [hr] at h
        cases h
      · exact ⟨.inl rfl, hb⟩
    | call nnn =>
      obtain ⟨_, hr⟩ | ⟨_, hr⟩ | ⟨hb, _⟩ := m.execute_call_cases entropy nnn
      · rw [hr] at h
        cases h
      · rw [hr] at h
        cases h
      · exact ⟨.inr ⟨nnn, rfl⟩, hb⟩
    | _ => cases h
  · rintro ⟨rfl | ⟨nnn, rfl⟩, hb⟩
    · obtain ⟨hsp, _⟩ | ⟨k, hk, htop, _⟩ | ⟨_, hr⟩ := m.execute_ret_cases entropy
      · simp [hsp] at hb
      · omega
      · exact ⟨_, hr⟩
    · obtain ⟨hsp, _⟩ | ⟨hlt, _⟩ | ⟨_, hr⟩ := m.execute_call_cases entropy nnn
      · simp [hsp] at hb
      · omega
      · exact ⟨_, hr⟩

/-- What is carried out breaks off only in a call or a return on a stack pointer outside of the
stack. -/
theorem carryOut_error_iff (m : Machine) (entropy : List UInt8) :
    (∃ broken, m.carryOut entropy = .error broken) ↔
      (m.instruction? = some .ret ∨ ∃ nnn, m.instruction? = some (.call nnn)) ∧
        16 < m.registers.sp.toNat := by
  unfold carryOut
  split
  · next i hi =>
    simp only [hi, Option.some.injEq]
    exact execute_error_iff
  · next hi =>
    simp only [hi, reduceCtorEq, exists_false, or_false, false_and]

/-! ## What every step keeps -/

/-- What holds of what is left of every instruction holds after every step. -/
theorem step_left {P : Machine → Prop} {m : Machine} (entropy : List UInt8) (h : P m)
    (hnone : P { m.recorded with registers := m.recorded.registers.next })
    (hsome : ∀ i, m.instruction? = some i → P (left (m.recorded.execute entropy i))) :
    P (m.step entropy).machine := by
  rw [machine_step]
  split
  · unfold carryOut
    split
    · next i hi => exact hsome i hi
    · exact hnone
  · exact h

theorem program_step (m : Machine) (entropy : List UInt8) :
    (m.step entropy).machine.program = m.program :=
  step_left (P := fun m' => m'.program = m.program) entropy rfl rfl
    fun i _ => program_execute m.recorded entropy i

/-- A step may set the timers; what the clock is owed and its reading are out of its reach. -/
theorem clock_step (m : Machine) (entropy : List UInt8) :
    ∃ delay sound, (m.step entropy).machine.clock = { m.clock with delay, sound } := by
  refine step_left (P := fun m' => ∃ delay sound, m'.clock = { m.clock with delay, sound })
    entropy ⟨_, _, rfl⟩ ⟨_, _, rfl⟩ fun i _ => ?_
  rw [clock_execute]
  cases i <;> exact ⟨_, _, rfl⟩

/-- The instructions that set a timer are the only ones to change the clock. -/
theorem clock_step_of_ne {m : Machine} (entropy : List UInt8)
    (h : fetchable m.registers.pc = true → ∀ i, m.instruction? = some i →
      (∀ x, i ≠ .setDelay x) ∧ ∀ x, i ≠ .setSound x) :
    (m.step entropy).machine.clock = m.clock := by
  rw [machine_step]
  split
  · next hf =>
    unfold carryOut
    split
    · next i hi =>
      obtain ⟨hdelay, hsound⟩ := h hf i hi
      rw [clock_execute]
      cases i with
      | setDelay x => exact absurd rfl (hdelay x)
      | setSound x => exact absurd rfl (hsound x)
      | _ => rfl
    · rfl
  · rfl

end Machine

/-! ## Runs -/

namespace Run

theorem steps_succ (r : Run) (n : Nat) :
    r.steps (n + 1) = if r.fault.isSome then r else r.step.steps n :=
  rfl

theorem events_step (r : Run) :
    r.step.events.toList = r.events.toList ++ (r.machine.step r.entropy).events :=
  Array.toList_appendList

/-- A run that has not faulted has carried out all its steps. -/
theorem completed_of_fault_eq_none (n : Nat) {r : Run} (h : (r.steps n).fault = none) :
    (r.steps n).completed = r.completed + n := by
  induction n generalizing r with
  | zero => rfl
  | succ n ih =>
    rw [steps_succ] at h ⊢
    split at h
    · next hf => simp [h] at hf
    · next hf =>
      rw [if_neg hf, ih h]
      -- a step that faults would have ended the run
      cases hstep : r.step.fault with
      | some fault =>
        rw [steps_of_fault (by rw [hstep]; rfl)] at h
        rw [h] at hstep
        cases hstep
      | none =>
        have hc : r.step.completed = r.completed + 1 := if_pos (congrArg Option.isNone hstep)
        omega

/-- A run may set the timers; what the clock is owed and its reading are out of its reach. -/
theorem clock_steps (n : Nat) (r : Run) :
    ∃ delay sound, (r.steps n).machine.clock = { r.machine.clock with delay, sound } := by
  induction n generalizing r with
  | zero => exact ⟨_, _, rfl⟩
  | succ n ih =>
    rw [steps_succ]
    split
    · exact ⟨_, _, rfl⟩
    · obtain ⟨delay, sound, hstep⟩ := r.machine.clock_step r.entropy
      have hfirst : r.step.machine.clock = { r.machine.clock with delay, sound } := hstep
      obtain ⟨delay', sound', hsteps⟩ := ih r.step
      refine ⟨delay', sound', hsteps.trans ?_⟩
      rw [hfirst]

/-- In a machine that has halted, steps come to nothing. -/
theorem steps_start_of_not_fetchable {m : Machine}
    (h : Machine.fetchable m.registers.pc = false) (entropy : List UInt8) (n : Nat) :
    (start m entropy).steps n = start m entropy ∨
      (start m entropy).steps n =
        ⟨m, entropy, #[.outOfBounds m.registers.pc], 0, some (.halted m.registers.pc)⟩ := by
  cases n with
  | zero => exact .inl rfl
  | succ n =>
    right
    have hstep : (start m entropy).step =
        ⟨m, entropy, #[.outOfBounds m.registers.pc], 0, some (.halted m.registers.pc)⟩ := by
      unfold step
      simp only [start, Machine.step_of_not_fetchable h]
      rfl
    have hnone : ¬ (start m entropy).fault.isSome = true := Bool.false_ne_true
    rw [steps_succ, if_neg hnone, hstep]
    exact steps_of_fault rfl n

end Run
end ChipEight
