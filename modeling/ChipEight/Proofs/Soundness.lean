import ChipEight.Instruction.Lemmas
import ChipEight.Proofs.Reachable
import ChipEight.Proofs.Timekeeping

/-!
# Sound machines

In a sound machine the stack pointer counts slots that exist, every live slot holds the address of
a call, the program counter is not far beyond memory, and the clock is sound. All reachable
machines are (`Rig.Reachable.sound`). In a sound machine nothing that a step or an update computes
leaves its range: no index misses the stack and no sum wraps (`Registers.Sound.exact`,
`Clock.Sound.exact`). The stack pointer is compared with sixteen and not bounded by it, so
everything hangs on its never getting past sixteen.
-/

namespace ChipEight

/-! ## Registers -/

namespace Registers

/-- The stack pointer lies on the stack, every live slot holds an address that a word can be
fetched from, and the program counter is one that a jump can lead to. -/
structure Sound (r : Registers) : Prop where
  sp_le : r.sp.toNat ≤ 16
  slot : ∀ k (_ : k < 16), k < r.sp.toNat → 0x200 ≤ r.stack[k].toNat ∧ r.stack[k].toNat ≤ 0xFFE
  pc_le : r.pc.toNat ≤ 0x10FE

theorem toNat_add_of_le {a b : UInt64} (ha : a.toNat ≤ 0x10FE) (hb : b.toNat ≤ 0xFFF) :
    (a + b).toNat = a.toNat + b.toNat := by
  rw [UInt64.toNat_add]
  omega

theorem toNat_sp_succ {sp : UInt64} (h : sp.toNat < 16) : (sp + 1).toNat = sp.toNat + 1 :=
  toNat_add_of_le (b := 1) (by omega) (by decide)

theorem toNat_sp_pred {sp : UInt64} {k : Nat} (h : sp.toNat = k + 1) : (sp - 1).toNat = k := by
  have hone : (1 : UInt64) ≤ sp := UInt64.le_iff_toNat_le.2 (h ▸ Nat.le_add_left 1 k)
  rw [UInt64.toNat_sub_of_le _ _ hone, h]
  rfl

theorem toNat_address (nnn : Address) : (UInt64.ofNat nnn.val).toNat = nnn.val := by
  rw [UInt64.toNat_ofNat']
  omega

/-- The target of a jump by a register does not wrap. -/
theorem toNat_jumpBy (nnn : Address) (b : UInt8) :
    (UInt64.ofNat nnn.val + b.toUInt64).toNat = nnn.val + b.toNat := by
  have hn := toNat_address nnn
  have hb : b.toUInt64.toNat = b.toNat := UInt8.toNat_toUInt64 b
  have := b.toNat_lt
  have := nnn.isLt
  rw [toNat_add_of_le (by omega) (by omega), hn, hb]

theorem start_sound (dialect : Dialect) : (Registers.start dialect).Sound where
  sp_le := Nat.zero_le _
  slot k _ hk := absurd hk (Nat.not_lt_zero k)
  pc_le := (by decide : UInt64.toNat 0x200 ≤ 0x10FE)

/-- The stack after a call: one more live slot, which holds the address of the call. -/
theorem Sound.push {r r' : Registers} (h : r.Sound) (hpc : Machine.fetchable r.pc = true)
    (hb : r.sp.toNat < 16) (hsp : r'.sp = r.sp + 1) (hstack : r'.stack = r.stack.set r.sp.toNat r.pc)
    (hpc' : r'.pc.toNat ≤ 0x10FE) : r'.Sound := by
  have hsp' : r'.sp.toNat = r.sp.toNat + 1 := hsp ▸ toNat_sp_succ hb
  refine ⟨by omega, ?_, hpc'⟩
  intro k hk hlive
  simp only [hstack, Vector.getElem_set]
  -- the slot of the call was not live before
  split
  · exact Machine.fetchable_iff.1 hpc
  · exact h.slot k hk (by omega)

/-- The stack after a return: the program goes on just past the call in the slot that was live. -/
theorem Sound.pop {r r' : Registers} (h : r.Sound) {k : Nat} (hk : k < 16)
    (htop : r.sp.toNat = k + 1) (hsp : r'.sp = r.sp - 1) (hstack : r'.stack = r.stack)
    (hpc : r'.pc = r.stack[k] + 2) : r'.Sound := by
  have hsp' : r'.sp.toNat = k := hsp ▸ toNat_sp_pred htop
  have hslot := h.slot k hk (by omega)
  refine ⟨by omega, ?_, ?_⟩
  · intro j hj hlive
    simp only [hstack]
    exact h.slot j hj (by omega)
  · have htwo : UInt64.toNat 2 = 2 := rfl
    rw [hpc, toNat_add_of_le (by omega) (by omega)]
    omega

/-- Sound registers stay sound however an instruction from program memory moves them. -/
theorem Sound.flow {r r' : Registers} {i : Option Instruction} (h : r.Sound)
    (hpc : Machine.fetchable r.pc = true) (hf : Flow r i r') : r'.Sound := by
  have hle := (Machine.fetchable_iff.1 hpc).2
  cases hf with
  | straight hsp hstack hpc' =>
    refine ⟨hsp ▸ h.sp_le, ?_, ?_⟩
    · rw [hsp, hstack]
      exact h.slot
    · have htwo : UInt64.toNat 2 = 2 := rfl
      have hfour : UInt64.toNat 4 = 4 := rfl
      obtain hp | hp | hp := hpc' <;> rw [hp]
      · exact h.pc_le
      · rw [toNat_add_of_le (by omega) (by omega)]; omega
      · rw [toNat_add_of_le (by omega) (by omega)]; omega
  | @jump nnn _ hsp hstack hpc' =>
    refine ⟨hsp ▸ h.sp_le, ?_, ?_⟩
    · rw [hsp, hstack]
      exact h.slot
    · rw [hpc', toNat_address]
      omega
  | @jumpBy nnn _ hsp hstack hpc' =>
    refine ⟨hsp ▸ h.sp_le, ?_, ?_⟩
    · rw [hsp, hstack]
      exact h.slot
    · have := (r.get .first).toNat_lt
      rw [hpc', toNat_jumpBy]
      omega
  | @call nnn _ hb hsp hstack hpc' =>
    refine h.push hpc hb hsp hstack ?_
    rw [hpc', toNat_address]
    omega
  | ret hk htop hsp hstack hpc' => exact h.pop hk htop hsp hstack hpc'

/-- Nothing that the next instruction computes from the stack pointer, the stack and the program
counter leaves its range. -/
structure Exact (r : Registers) : Prop where
  next : (r.pc + 2).toNat = r.pc.toNat + 2
  skip : (r.pc + 4).toNat = r.pc.toNat + 4
  jumpBy : ∀ nnn : Address,
    (UInt64.ofNat nnn.val + (r.get .first).toUInt64).toNat = nnn.val + (r.get .first).toNat
  push : r.sp ≠ 16 → r.sp.toNat < 16 ∧ (r.sp + 1).toNat = r.sp.toNat + 1
  pop : r.sp ≠ 0 → (r.sp - 1).toNat = r.sp.toNat - 1 ∧
    ∃ _ : r.sp.toNat - 1 < 16, (r.stack[r.sp.toNat - 1] + 2).toNat = r.stack[r.sp.toNat - 1].toNat + 2

/-- In sound registers no operation on addresses or on the stack wraps. -/
theorem Sound.exact {r : Registers} (h : r.Sound) : r.Exact where
  next := toNat_add_of_le (b := 2) h.pc_le (by decide)
  skip := toNat_add_of_le (b := 4) h.pc_le (by decide)
  jumpBy nnn := toNat_jumpBy nnn _
  push hne := by
    have hsp := h.sp_le
    have hne' : r.sp.toNat ≠ 16 := fun he => hne (UInt64.toNat_inj.1 he)
    have hlt : r.sp.toNat < 16 := by omega
    exact ⟨hlt, toNat_sp_succ hlt⟩
  pop hne := by
    have hsp := h.sp_le
    have hpos : 0 < r.sp.toNat := Nat.pos_of_ne_zero fun he => hne (UInt64.toNat_inj.1 he)
    have htop := h.slot (r.sp.toNat - 1) (by omega) (by omega)
    exact ⟨toNat_sp_pred (by omega), by omega,
      toNat_add_of_le (b := 2) (by omega) (by decide)⟩

end Registers

/-! ## The clock -/

namespace Clock

/-- Nothing that an advance to the reading `now` computes leaves its range, and the number of steps
that come due is the whole one. -/
structure Exact (c : Clock) (now : Reading) : Prop where
  timerOwed : (c.timerOwed now).toNat = c.timerDebt.toNat + c.elapsed now * 60
  cpuOwed : (c.cpuOwed now).toNat = c.cpuDebt.toNat + c.elapsed now * c.rate.toNat
  stepsDue : c.stepsDue now = (c.cpuDebt.toNat + c.elapsed now * c.rate.toNat) / period
  stepsDue_lt : c.stepsDue now < UInt64.size

/-- In a sound clock no account of time wraps. -/
theorem Sound.exact {c : Clock} (h : c.Sound) (now : Reading) : c.Exact now where
  timerOwed := toNat_timerOwed h now
  cpuOwed := toNat_cpuOwed h now
  stepsDue := stepsDue_eq h now
  stepsDue_lt := by
    rw [stepsDue_eq h]
    exact Nat.div_lt_of_lt_mul (cpuOwed_lt h now)

end Clock

/-! ## Machines -/

namespace Machine

structure Sound (m : Machine) : Prop where
  registers : m.registers.Sound
  clock : m.clock.Sound

/-- In a sound machine every word can be carried out. -/
theorem Sound.exists_carryOut {m : Machine} (h : m.Sound) (entropy : List UInt8) :
    ∃ effect, m.carryOut entropy = .ok effect := by
  cases he : m.carryOut entropy with
  | ok effect => exact ⟨effect, rfl⟩
  | error broken =>
    -- to break off, the stack pointer would have to be past sixteen already
    have hsp := ((m.carryOut_error_iff entropy).1 ⟨broken, he⟩).2
    exact absurd h.registers.sp_le (Nat.not_le.2 hsp)

/-- A step keeps a machine sound. -/
theorem step_sound {m : Machine} (entropy : List UInt8) (h : m.Sound) :
    (m.step entropy).machine.Sound := by
  obtain ⟨delay, sound, hclock⟩ := m.clock_step entropy
  have hc := h.clock
  refine ⟨?_, hclock ▸ ⟨hc.rate_pos, hc.rate_le, hc.cpuDebt_lt, hc.timerDebt_lt⟩⟩
  rw [machine_step]
  split
  · next hf =>
    obtain ⟨effect, he⟩ := h.exists_carryOut entropy
    rw [he]
    exact h.registers.flow hf (flow_carryOut he)
  · exact h.registers

/-- All that can happen to a machine keeps it sound. -/
theorem kept_sound : Machine.Kept Machine.Sound where
  fresh rate dialect now := ⟨Registers.start_sound dialect, Clock.start_sound rate now⟩
  reset {m} now program _ h := by
    rw [reset_fst]
    exact ⟨Registers.start_sound _, Clock.reset_sound h.clock now⟩
  keypad _ h := ⟨h.registers, h.clock⟩
  step entropy h := step_sound entropy h
  attach now h := ⟨h.registers, Clock.attach_sound h.clock now⟩
  advance now h := ⟨h.registers, Clock.advance_sound h.clock now⟩
  resetClock now h := ⟨h.registers, Clock.reset_sound h.clock now⟩
  tick n h := ⟨h.registers, Clock.tick_sound h.clock n⟩
  displayFrame h := ⟨h.registers, h.clock⟩
  restore _ h :=
    ⟨h.registers, h.clock.rate_pos, h.clock.rate_le, h.clock.cpuDebt_lt, h.clock.timerDebt_lt⟩

/-- A step breaks down exactly if a call or a return meets a stack pointer beyond the stack. -/
theorem fault_step_eq_stackOutOfRange_iff (m : Machine) (entropy : List UInt8) :
    (m.step entropy).fault = some .stackOutOfRange ↔
      fetchable m.registers.pc = true ∧
        (m.instruction? = some .ret ∨ ∃ nnn, m.instruction? = some (.call nnn)) ∧
          16 < m.registers.sp.toNat := by
  rw [fault_step, ← m.carryOut_error_iff entropy]
  by_cases hf : fetchable m.registers.pc = true
  · rw [if_pos hf]
    cases m.carryOut entropy with
    | ok effect => simp [hf]
    | error broken => simp [hf]
  · simp [hf]

theorem Sound.fault_step_ne {m : Machine} (h : m.Sound) (entropy : List UInt8) :
    (m.step entropy).fault ≠ some .stackOutOfRange := by
  intro hfault
  obtain ⟨_, _, hsp⟩ := (m.fault_step_eq_stackOutOfRange_iff entropy).1 hfault
  exact absurd h.registers.sp_le (Nat.not_le.2 hsp)

/-- A sound machine faults only where it has halted. -/
theorem Sound.fault_step {m : Machine} (h : m.Sound) (entropy : List UInt8) :
    (m.step entropy).fault =
      if fetchable m.registers.pc then none else some (.halted m.registers.pc) := by
  obtain ⟨effect, he⟩ := h.exists_carryOut entropy
  rw [Machine.fault_step, he]

theorem Sound.flow_step {m : Machine} (h : m.Sound) (entropy : List UInt8)
    (hf : fetchable m.registers.pc = true) :
    Registers.Flow m.registers m.instruction? (m.step entropy).machine.registers := by
  obtain ⟨effect, he⟩ := h.exists_carryOut entropy
  rw [step_of_ok hf he]
  exact flow_carryOut he

end Machine

/-- A run from a sound machine stays sound and does not break down. -/
theorem Run.steps_sound (n : Nat) {r : Run} (h : r.machine.Sound)
    (hfault : r.fault ≠ some .stackOutOfRange) :
    (r.steps n).machine.Sound ∧ (r.steps n).fault ≠ some .stackOutOfRange := by
  induction n generalizing r with
  | zero => exact ⟨h, hfault⟩
  | succ n ih =>
    unfold steps
    split
    · exact ⟨h, hfault⟩
    · exact ih (r := r.step) (Machine.step_sound r.entropy h) (h.fault_step_ne r.entropy)

theorem Machine.Sound.run {m : Machine} (h : m.Sound) (entropy : List UInt8) (n : Nat) :
    (m.run entropy n).machine.Sound ∧ (m.run entropy n).fault ≠ some .stackOutOfRange :=
  Run.steps_sound n h fun hfault => Option.some_ne_none _ hfault.symm

theorem Rig.Reachable.sound {r : Rig} (h : r.Reachable) : r.machine.Sound :=
  h.machine Machine.kept_sound

/-! ## Safety -/

/-- The calls are the words whose first digit is 2. -/
theorem Instruction.exists_eq_toWord_call_iff {w : UInt16} :
    (∃ nnn, w = (Instruction.call nnn).toWord) ↔ w.toNat / 0x1000 = 2 := by
  constructor
  · rintro ⟨nnn, h⟩
    exact (eq_toWord_call_iff.1 h).1
  · intro h
    exact ⟨_, eq_toWord_call_iff.2 ⟨h, rfl⟩⟩

/-- **Safety.** Every reachable machine is sound, whatever has happened to it. In it neither a step
nor any step of an update breaks down, and nothing that they compute leaves its range. A machine in
any other state breaks down exactly where a call or a return meets a stack pointer past sixteen. -/
theorem machine_safety :
    (∀ r : Rig, r.Reachable →
      r.machine.Sound ∧ r.machine.registers.Exact ∧
      (∀ entropy, (r.machine.step entropy).fault ≠ some .stackOutOfRange) ∧
      ∀ now entropy, r.machine.clock.Exact now ∧
        (r.machine.update now entropy).fault ≠ some .stackOutOfRange ∧
        ∀ n, ({ r.machine with clock := r.machine.clock.advance now }.run
          entropy n).machine.registers.Exact) ∧
    ∀ (m : Machine) (entropy : List UInt8),
      (m.step entropy).fault = some .stackOutOfRange ↔
        (0x200 ≤ m.registers.pc.toNat ∧ m.registers.pc.toNat ≤ 0xFFE) ∧
        ((m.memory.word m.registers.pc.toNat).toNat / 0x1000 = 2 ∨
          m.memory.word m.registers.pc.toNat = 0x00EE) ∧
        16 < m.registers.sp.toNat := by
  constructor
  · intro r h
    have hs := h.sound
    refine ⟨hs, hs.registers.exact, fun entropy => hs.fault_step_ne entropy, ?_⟩
    intro now entropy
    have hadvance : Machine.Sound { r.machine with clock := r.machine.clock.advance now } :=
      Machine.kept_sound.advance now hs
    refine ⟨hs.clock.exact now, (hadvance.run entropy _).2, fun n => ?_⟩
    exact (hadvance.run entropy n).1.registers.exact
  · intro m entropy
    have hret : m.instruction? = some .ret ↔ m.memory.word m.registers.pc.toNat = 0x00EE :=
      Instruction.ofWord?_eq_some_iff
    have hcall : (∃ nnn, m.instruction? = some (.call nnn)) ↔
        (m.memory.word m.registers.pc.toNat).toNat / 0x1000 = 2 := by
      rw [← Instruction.exists_eq_toWord_call_iff]
      exact exists_congr fun nnn => Instruction.ofWord?_eq_some_iff
    rw [m.fault_step_eq_stackOutOfRange_iff entropy, Machine.fetchable_iff, hret, hcall, or_comm]

/-- A program that calls itself has filled the stack, and the next call does no harm. -/
theorem machine_safety_full_stack :
    let r := (Rig.start 500 .standard 0 []).after [.load #[0x22, 0x00], .run 16]
    r.Reachable ∧ r.machine.registers.sp = 16 ∧ r.machine.Sound ∧
      (r.machine.step []).fault ≠ some .stackOutOfRange := by
  intro r
  have h : r.Reachable := Rig.Reachable.after (.start ..) (by simp [Request.IsPlain])
  obtain ⟨hs, _, hstep, _⟩ := machine_safety.1 r h
  exact ⟨h, by decide +kernel, hs, hstep []⟩

end ChipEight
