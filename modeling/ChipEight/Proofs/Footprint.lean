import Mathlib.Tactic.ByContra
import ChipEight.Instruction.Lemmas
import ChipEight.Proofs.Dialects

/-!
# What a step leaves alone

An instruction works on a few parts of the machine, and its word tells which. Everything that a
step changes is told here by the words that may change it (`Machine.Confined`); the word itself is
fetched and not assumed, so this holds of every machine, whatever its program has written over
(`Machine.effects_confined`). A step that finds no instruction moves the program counter and keeps
a record of the word, and touches nothing else.
-/

namespace ChipEight

/-! ## Memory -/

/-- Memory is stored to from an address on, modulo its size, and nowhere else. -/
theorem Memory.read_store_of_ne (m : Memory) (bytes : List UInt8) {a c : Nat}
    (h : ∀ k < bytes.length, c % 4096 ≠ (a + k) % 4096) : (m.store a bytes).read c = m.read c := by
  induction bytes generalizing m a with
  | nil => rfl
  | cons b bytes ih =>
    have hfirst : ¬ a % 4096 = c % 4096 := fun he => h 0 (Nat.zero_lt_succ _) he.symm
    have hrest : ∀ k < bytes.length, c % 4096 ≠ (a + 1 + k) % 4096 := by
      intro k hk
      have hne := h (k + 1) (Nat.succ_lt_succ hk)
      rwa [Nat.add_right_comm, Nat.add_assoc]
    rw [store, ih _ hrest, read_write, if_neg hfirst]

/-! ## Registers -/

/-- Whether an instruction may put a value in a register. -/
def Instruction.Puts (y : Reg) : Instruction → Prop
  | .setByte x _ | .addByte x _ | .alu .copy x _ | .random x _ | .readDelay x | .awaitKey x => y = x
  | .alu _ x _ => y = x ∨ y = .flag
  | .draw .. => y = .flag
  | .loadRegisters x => y ≤ x
  | _ => False

namespace Registers

variable (r : Registers)

theorem get_put (x y : Reg) (b : UInt8) : (r.put x b).get y = if y = x then b else r.get y := by
  simp only [get, put, Fin.getElem_fin, Vector.getElem_set, Fin.ext_iff, eq_comm]

theorem get_put_of_ne {x y : Reg} (h : y ≠ x) (b : UInt8) : (r.put x b).get y = r.get y := by
  rw [get_put, if_neg h]

@[simp] theorem get_next (y : Reg) : r.next.get y = r.get y :=
  rfl

@[simp] theorem get_advanceIndex (n : Nat) (y : Reg) : (r.advanceIndex n).get y = r.get y := by
  unfold advanceIndex
  split <;> rfl

theorem get_putUpTo_of_lt {x y : Reg} (h : x < y) (bytes : Nat → UInt8) :
    (r.putUpTo x bytes).get y = r.get y := by
  simp only [get, putUpTo, Fin.getElem_fin, getElem_tabulate, Fin.eta]
  exact if_neg (Fin.not_le.2 h)

@[simp] theorem index_advanceIndex (n : Nat) :
    (r.advanceIndex n).i = if r.dialect.advancesIndex then r.i + UInt16.ofNat n else r.i := by
  unfold advanceIndex
  split <;> rfl

theorem length_upTo (x : Reg) : (r.upTo x).length = x.val + 1 := by
  simp only [upTo, List.length_take, Vector.length_toList]
  omega

end Registers

/-! ## Instructions, the other parts of the machine -/

namespace Machine

variable (m : Machine) (entropy : List UInt8)

/-- Of all instructions two touch memory. -/
theorem memory_execute (i : Instruction) :
    (left (m.execute entropy i)).memory =
      match i with
      | .storeDecimal x =>
        m.memory.store m.registers.i.toNat (decimalDigits (m.registers.get x))
      | .storeRegisters x => m.memory.store m.registers.i.toNat (m.registers.upTo x)
      | _ => m.memory := by
  cases i with
  | ret =>
    obtain ⟨_, _, h⟩ := m.left_ret entropy
    rw [h]
  | call nnn =>
    obtain ⟨_, _, _, h⟩ := m.left_call entropy nnn
    rw [h]
  | awaitKey x =>
    obtain ⟨_, _, _, _, h⟩ := m.left_awaitKey entropy x
    rw [h]
  | _ => rfl

/-- The index is set, added to, or moved past a block where the dialect asks for it. -/
theorem index_execute (i : Instruction) :
    (left (m.execute entropy i)).registers.i =
      match i with
      | .setIndex nnn => UInt16.ofNat nnn.val
      | .addIndex x => m.registers.i + (m.registers.get x).toUInt16
      | .pointGlyph x => (m.registers.get x % 16).toUInt16 * 5
      | .storeRegisters x | .loadRegisters x =>
        if m.registers.dialect.advancesIndex then m.registers.i + UInt16.ofNat (x.val + 1)
        else m.registers.i
      | _ => m.registers.i := by
  cases i with
  | ret =>
    obtain ⟨_, _, h⟩ := m.left_ret entropy
    rw [h]
  | call nnn =>
    obtain ⟨_, _, _, h⟩ := m.left_call entropy nnn
    rw [h]
  | awaitKey x =>
    obtain ⟨_, _, _, _, h⟩ := m.left_awaitKey entropy x
    rw [h]
  | alu op x y => exact Registers.index_putFlagged ..
  | storeRegisters x | loadRegisters x => exact Registers.index_advanceIndex ..
  | _ => rfl

/-- A register that an instruction does not put a value in keeps its own. -/
theorem get_execute {i : Instruction} {y : Reg} (h : ¬ i.Puts y) :
    (left (m.execute entropy i)).registers.get y = m.registers.get y := by
  cases i with
  | ret =>
    obtain ⟨_, _, h⟩ := m.left_ret entropy
    rw [h]
    rfl
  | call nnn =>
    obtain ⟨_, _, _, h⟩ := m.left_call entropy nnn
    rw [h]
    rfl
  | awaitKey x =>
    rw [execute_awaitKey]
    obtain ⟨_, he⟩ | ⟨_, _, he⟩ | ⟨_, _, _, he⟩ := m.awaitKey_cases entropy x <;> rw [he]
    · rfl
    · rfl
    · exact Registers.get_put_of_ne _ h _
  | setByte x nn | addByte x nn | random x nn | readDelay x => exact m.registers.get_put_of_ne h _
  | alu op x z =>
    cases op with
    | copy => exact m.registers.get_put_of_ne h _
    | _ =>
      obtain ⟨hx, hflag⟩ := not_or.1 h
      exact (Registers.get_put_of_ne _ hflag _).trans (m.registers.get_put_of_ne hx _)
  | draw x z n => exact m.registers.get_put_of_ne h _
  | storeRegisters x => exact m.registers.get_advanceIndex _ y
  | loadRegisters x =>
    exact (Registers.get_advanceIndex _ _ y).trans
      (m.registers.get_putUpTo_of_lt (Fin.not_le.1 h) _)
  | _ => rfl

/-- Calls write the slot at the stack pointer, and nothing else writes to the stack. -/
theorem stack_execute {i : Instruction} {k : Nat} (hk : k < 16)
    (h : ∀ nnn, i = .call nnn → k ≠ m.registers.sp.toNat) :
    (left (m.execute entropy i)).registers.stack[k] = m.registers.stack[k] := by
  cases i with
  | ret =>
    obtain ⟨_, _, h⟩ := m.left_ret entropy
    rw [h]
  | call nnn =>
    -- `left_call` does not say which slot is written
    obtain ⟨_, he⟩ | ⟨hb, he⟩ | ⟨_, he⟩ := m.execute_call_cases entropy nnn <;> rw [he]
    · rfl
    · exact Vector.getElem_set_ne hb hk (h nnn rfl).symm
    · rfl
  | awaitKey x =>
    obtain ⟨_, _, _, _, h⟩ := m.left_awaitKey entropy x
    rw [h]
  | alu op x y => exact congrArg (·[k]) (Registers.stack_putFlagged ..)
  | storeRegisters x | loadRegisters x => exact congrArg (·[k]) (Registers.stack_advanceIndex ..)
  | _ => rfl

/-- Only calls and returns move the stack pointer. -/
theorem sp_execute {i : Instruction} (hret : i ≠ .ret) (hcall : ∀ nnn, i ≠ .call nnn) :
    (left (m.execute entropy i)).registers.sp = m.registers.sp := by
  cases he : m.execute entropy i with
  | error broken =>
    obtain ⟨hi | ⟨nnn, hi⟩, -⟩ := execute_error_iff.1 ⟨broken, he⟩
    · exact absurd hi hret
    · exact absurd hi (hcall nnn)
  | ok effect =>
    cases flow_execute he with
    | straight hsp | jump hsp | jumpBy hsp => exact hsp
    | call => exact absurd rfl (hcall _)
    | ret => exact absurd rfl hret

/-- Waiting for a key may empty the latch, and no instruction moves a key. -/
theorem held_execute (i : Instruction) :
    (left (m.execute entropy i)).keypad.held = m.keypad.held := by
  cases i with
  | awaitKey x =>
    obtain ⟨_, _, _, _, h⟩ := m.left_awaitKey entropy x
    rw [h]
  | _ => exact congrArg Keypad.held (keypad_execute nofun)

/-! ## Steps -/

/-- The machine is about to carry out an instruction, whose word stands at the program counter. -/
structure Fetches (m : Machine) (i : Instruction) : Prop where
  fetchable : fetchable m.registers.pc = true
  word : m.nextWord = i.toWord

variable {m : Machine} {entropy : List UInt8}

theorem Fetches.instruction? {i : Instruction} (h : m.Fetches i) : m.instruction? = some i :=
  Instruction.ofWord?_eq_some_iff.2 h.word

theorem Fetches.machine_step {i : Instruction} (h : m.Fetches i) (entropy : List UInt8) :
    (m.step entropy).machine = left (m.recorded.execute entropy i) := by
  rw [Machine.machine_step, if_pos h.fetchable, carryOut_of_some h.instruction?]

/-- A part of the machine that a step changes and that passing over a word leaves alone is changed
by the instruction that was fetched. -/
theorem exists_fetches_of_ne {α : Type} (part : Machine → α)
    (hpass : part { m.recorded with registers := m.recorded.registers.next } = part m)
    (h : part (m.step entropy).machine ≠ part m) :
    ∃ i, m.Fetches i ∧ part (left (m.recorded.execute entropy i)) ≠ part m := by
  rw [machine_step] at h
  split at h
  · next hf =>
    unfold carryOut at h
    split at h
    · next i hi => exact ⟨i, ⟨hf, Instruction.ofWord?_eq_some_iff.1 hi⟩, h⟩
    · exact absurd hpass h
  · exact absurd rfl h

/-- Where memory differs after a step, an instruction that stores has been carried out, and the
address is one that it stores to. -/
theorem memory_of_step_ne {a : Nat}
    (h : (m.step entropy).machine.memory.read a ≠ m.memory.read a) :
    ∃ x k, (m.Fetches (.storeDecimal x) ∧ k < 3 ∨ m.Fetches (.storeRegisters x) ∧ k ≤ x.val) ∧
      a % 4096 = (m.registers.i.toNat + k) % 4096 := by
  obtain ⟨i, hi, hne⟩ := exists_fetches_of_ne (fun m => m.memory.read a) rfl h
  rw [memory_execute] at hne
  -- `hno` keeps the address out of everything that is stored
  by_contra hno
  refine hne ?_
  cases i with
  | storeDecimal x =>
    exact m.memory.read_store_of_ne _ fun k hk ha => hno ⟨x, k, .inl ⟨hi, hk⟩, ha⟩
  | storeRegisters x =>
    refine m.memory.read_store_of_ne _ fun k hk ha => hno ⟨x, k, .inr ⟨hi, ?_⟩, ha⟩
    rw [Registers.length_upTo] at hk
    exact Nat.le_of_lt_succ hk
  | _ => rfl

/-- The words by which a screen is redrawn. -/
def FetchesDrawing (m : Machine) : Prop :=
  m.Fetches .clearScreen ∨ ∃ x y n, m.Fetches (.draw x y n)

/-- Where the screen differs after a step, an instruction that draws has been carried out. -/
theorem drawing_of_step_ne (h : (m.step entropy).machine.screen ≠ m.screen) :
    m.FetchesDrawing := by
  obtain ⟨i, hi, hne⟩ := exists_fetches_of_ne Machine.screen rfl h
  rw [screen_execute] at hne
  cases i with
  | clearScreen => exact .inl hi
  | draw x y n => exact .inr ⟨x, y, n, hi⟩
  | _ => exact absurd rfl hne

theorem dirty_step_of_drawing (h : m.FetchesDrawing) (entropy : List UInt8) :
    (m.step entropy).machine.screen.dirty = true := by
  obtain hi | ⟨x, y, n, hi⟩ := h <;> rw [hi.machine_step, screen_execute] <;> rfl

/-- A step packs no frame. -/
theorem packed_step (m : Machine) (entropy : List UInt8) :
    (m.step entropy).machine.screen.packed = m.screen.packed ∧
      (m.step entropy).machine.screen.packCount = m.screen.packCount := by
  refine step_left (P := fun m' =>
    m'.screen.packed = m.screen.packed ∧ m'.screen.packCount = m.screen.packCount)
    entropy ⟨rfl, rfl⟩ ⟨rfl, rfl⟩ fun i _ => ?_
  rw [screen_execute]
  cases i <;> exact ⟨rfl, rfl⟩

theorem delay_of_step_ne (h : (m.step entropy).machine.clock.delay ≠ m.clock.delay) :
    ∃ x, m.Fetches (.setDelay x) := by
  obtain ⟨i, hi, hne⟩ := exists_fetches_of_ne (fun m => m.clock.delay) rfl h
  rw [clock_execute] at hne
  cases i with
  | setDelay x => exact ⟨x, hi⟩
  | _ => exact absurd rfl hne

theorem sound_of_step_ne (h : (m.step entropy).machine.clock.sound ≠ m.clock.sound) :
    ∃ x, m.Fetches (.setSound x) := by
  obtain ⟨i, hi, hne⟩ := exists_fetches_of_ne (fun m => m.clock.sound) rfl h
  rw [clock_execute] at hne
  cases i with
  | setSound x => exact ⟨x, hi⟩
  | _ => exact absurd rfl hne

theorem held_step (m : Machine) (entropy : List UInt8) :
    (m.step entropy).machine.keypad.held = m.keypad.held :=
  step_left (P := fun m' => m'.keypad.held = m.keypad.held) entropy rfl rfl
    fun i _ => m.recorded.held_execute entropy i

theorem latch_of_step_ne (h : (m.step entropy).machine.keypad.latch ≠ m.keypad.latch) :
    ∃ x, m.Fetches (.awaitKey x) := by
  obtain ⟨i, hi, hne⟩ := exists_fetches_of_ne (fun m => m.keypad.latch) rfl h
  by_contra hno
  refine hne (congrArg Keypad.latch (keypad_execute ?_))
  rintro x rfl
  exact hno ⟨x, hi⟩

theorem mode_of_step_ne (h : (m.step entropy).machine.registers.mode ≠ m.registers.mode) :
    ∃ x, m.Fetches (.awaitKey x) := by
  obtain ⟨i, hi, hne⟩ := exists_fetches_of_ne (fun m => m.registers.mode) rfl h
  by_contra hno
  refine hne (mode_execute ?_)
  rintro x rfl
  exact hno ⟨x, hi⟩

/-- Where the stack pointer differs after a step, it was a call or a return. -/
theorem sp_of_step_ne (h : (m.step entropy).machine.registers.sp ≠ m.registers.sp) :
    m.Fetches .ret ∨ ∃ nnn, m.Fetches (.call nnn) := by
  obtain ⟨i, hi, hne⟩ := exists_fetches_of_ne (fun m => m.registers.sp) rfl h
  by_contra hno
  obtain ⟨hret, hcall⟩ := not_or.1 hno
  refine hne (m.recorded.sp_execute entropy ?_ ?_)
  · rintro rfl
    exact hret hi
  · rintro nnn rfl
    exact hcall ⟨nnn, hi⟩

/-- Where a slot of the stack differs after a step, it was a call, and the slot is the one that was
next. -/
theorem stack_of_step_ne {k : Nat} (hk : k < 16)
    (h : (m.step entropy).machine.registers.stack[k] ≠ m.registers.stack[k]) :
    (∃ nnn, m.Fetches (.call nnn)) ∧ k = m.registers.sp.toNat := by
  obtain ⟨i, hi, hne⟩ := exists_fetches_of_ne (fun m => m.registers.stack[k]) rfl h
  by_contra hno
  refine hne (m.recorded.stack_execute entropy hk ?_)
  rintro nnn rfl hsp
  exact hno ⟨⟨nnn, hi⟩, hsp⟩

/-- Where the index differs after a step, an instruction that sets it has been carried out, or a
transfer of registers in a dialect that advances it. -/
theorem index_of_step_ne (h : (m.step entropy).machine.registers.i ≠ m.registers.i) :
    (∃ nnn, m.Fetches (.setIndex nnn)) ∨ (∃ x, m.Fetches (.addIndex x)) ∨
      (∃ x, m.Fetches (.pointGlyph x)) ∨
      m.registers.dialect.advancesIndex = true ∧
        ∃ x, m.Fetches (.storeRegisters x) ∨ m.Fetches (.loadRegisters x) := by
  obtain ⟨i, hi, hne⟩ := exists_fetches_of_ne (fun m => m.registers.i) rfl h
  rw [index_execute] at hne
  cases i with
  | setIndex nnn => exact .inl ⟨nnn, hi⟩
  | addIndex x => exact .inr (.inl ⟨x, hi⟩)
  | pointGlyph x => exact .inr (.inr (.inl ⟨x, hi⟩))
  | storeRegisters x =>
    by_cases hd : m.registers.dialect.advancesIndex = true
    · exact .inr (.inr (.inr ⟨hd, x, .inl hi⟩))
    · exact absurd (if_neg hd) hne
  | loadRegisters x =>
    by_cases hd : m.registers.dialect.advancesIndex = true
    · exact .inr (.inr (.inr ⟨hd, x, .inr hi⟩))
    · exact absurd (if_neg hd) hne
  | _ => exact absurd rfl hne

theorem puts_of_step_ne {y : Reg}
    (h : (m.step entropy).machine.registers.get y ≠ m.registers.get y) :
    ∃ i, m.Fetches i ∧ i.Puts y := by
  obtain ⟨i, hi, hne⟩ := exists_fetches_of_ne (fun m => m.registers.get y) rfl h
  by_contra hno
  refine hne (m.recorded.get_execute entropy ?_)
  exact fun hputs => hno ⟨i, hi, hputs⟩

/-! ## All of a step -/

/-- What a step may have changed, by the word at the program counter. -/
structure Confined (m m' : Machine) : Prop where
  memory : ∀ a, m'.memory.read a ≠ m.memory.read a → ∃ x k,
    (m.Fetches (.storeDecimal x) ∧ k < 3 ∨ m.Fetches (.storeRegisters x) ∧ k ≤ x.val) ∧
      a % 4096 = (m.registers.i.toNat + k) % 4096
  grid : m'.screen.grid ≠ m.screen.grid → m.FetchesDrawing
  dirty : m'.screen.dirty ≠ m.screen.dirty → m.FetchesDrawing
  drawn : m.FetchesDrawing → m'.screen.dirty = true
  stillDirty : m.screen.dirty = true → m'.screen.dirty = true
  packed : m'.screen.packed = m.screen.packed
  packCount : m'.screen.packCount = m.screen.packCount
  delay : m'.clock.delay ≠ m.clock.delay → ∃ x, m.Fetches (.setDelay x)
  sound : m'.clock.sound ≠ m.clock.sound → ∃ x, m.Fetches (.setSound x)
  clock : m'.clock = { m.clock with delay := m'.clock.delay, sound := m'.clock.sound }
  held : m'.keypad.held = m.keypad.held
  latch : m'.keypad.latch ≠ m.keypad.latch → ∃ x, m.Fetches (.awaitKey x)
  mode : m'.registers.mode ≠ m.registers.mode → ∃ x, m.Fetches (.awaitKey x)
  sp : m'.registers.sp ≠ m.registers.sp → m.Fetches .ret ∨ ∃ nnn, m.Fetches (.call nnn)
  stack : ∀ k (_ : k < 16), m'.registers.stack[k] ≠ m.registers.stack[k] →
    (∃ nnn, m.Fetches (.call nnn)) ∧ k = m.registers.sp.toNat
  index : m'.registers.i ≠ m.registers.i →
    (∃ nnn, m.Fetches (.setIndex nnn)) ∨ (∃ x, m.Fetches (.addIndex x)) ∨
      (∃ x, m.Fetches (.pointGlyph x)) ∨
      m.registers.dialect.advancesIndex = true ∧
        ∃ x, m.Fetches (.storeRegisters x) ∨ m.Fetches (.loadRegisters x)
  registers : ∀ y, m'.registers.get y ≠ m.registers.get y → ∃ i, m.Fetches i ∧ i.Puts y
  dialect : m'.registers.dialect = m.registers.dialect
  program : m'.program = m.program

/-- **Effects are confined.** Whatever state a machine is in and whatever word it fetches, a step
changes no part of it that the word has nothing to do with. -/
theorem effects_confined (m : Machine) (entropy : List UInt8) :
    m.Confined (m.step entropy).machine where
  memory _ := memory_of_step_ne
  grid h := drawing_of_step_ne fun he => h (congrArg Screen.grid he)
  dirty h := drawing_of_step_ne fun he => h (congrArg Screen.dirty he)
  drawn h := dirty_step_of_drawing h entropy
  stillDirty hdirty := by
    by_contra hclean
    have hdrawing : m.FetchesDrawing :=
      drawing_of_step_ne fun he => hclean ((congrArg Screen.dirty he).trans hdirty)
    exact hclean (dirty_step_of_drawing hdrawing entropy)
  packed := (m.packed_step entropy).1
  packCount := (m.packed_step entropy).2
  delay := delay_of_step_ne
  sound := sound_of_step_ne
  clock := by
    obtain ⟨delay, sound, h⟩ := m.clock_step entropy
    rw [h]
  held := m.held_step entropy
  latch := latch_of_step_ne
  mode := mode_of_step_ne
  sp := sp_of_step_ne
  stack _ := stack_of_step_ne
  index := index_of_step_ne
  registers _ := puts_of_step_ne
  dialect := m.dialect_step entropy
  program := m.program_step entropy

end Machine
end ChipEight
