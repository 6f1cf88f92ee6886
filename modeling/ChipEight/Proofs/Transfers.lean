import Mathlib.Data.Fintype.Card
import ChipEight.Proofs.Footprint

/-!
# Transfers between registers and memory

`Fx55` stores registers in memory, `Fx65` loads them back and `Fx33` stores a byte in decimal. They
start at the index and go on past the top of memory at its bottom, so that a transfer may write over
the font, or over the very word that asked for it. The addresses of a transfer differ from each
other, as there are at most sixteen of them (`Address.card_block`); therefore nothing that is stored
is written over in the same transfer, and loading finds all of it (`Machine.block_transfer`).
-/

namespace ChipEight

/-! ## Addresses -/

namespace Address

/-- The `n` addresses from a number on. -/
def block (a n : Nat) : Finset Address :=
  (Finset.range n).image fun k => Address.lowest (a + k)

theorem mem_block {a n : Nat} {c : Address} :
    c ∈ block a n ↔ ∃ k < n, Address.lowest (a + k) = c := by
  simp only [block, Finset.mem_image, Finset.mem_range]

/-- Fewer addresses than memory has do not come round to each other. -/
theorem card_block (a : Nat) {n : Nat} (h : n ≤ 4096) : (block a n).card = n := by
  have hinj : Set.InjOn (fun k => Address.lowest (a + k)) (Finset.range n) := by
    intro j hj k hk he
    have hj' : j < n := Finset.mem_range.1 hj
    have hk' : k < n := Finset.mem_range.1 hk
    have hmod : (a + j) % 4096 = (a + k) % 4096 := Address.lowest_eq_iff.1 he
    omega
  rw [block, Finset.card_image_of_injOn hinj, Finset.card_range]

theorem card_compl_block (a : Nat) {n : Nat} (h : n ≤ 4096) : (block a n)ᶜ.card = 4096 - n := by
  rw [Finset.card_compl, card_block a h, Fintype.card_fin]

end Address

/-! ## Memory -/

namespace Memory

variable (m : Memory) (bytes : List UInt8)

theorem read_store_of_not_mem {a : Nat} {c : Address} (h : c ∉ Address.block a bytes.length) :
    (m.store a bytes).read c.val = m.read c.val := by
  refine m.read_store_of_ne bytes ?_
  intro k hk he
  refine h (Address.mem_block.2 ⟨k, hk, ?_⟩)
  apply Fin.ext
  rw [Address.val_lowest, ← he, Nat.mod_eq_of_lt c.isLt]

/-- What is stored can be read, as long as it does not come round to where it began. -/
theorem read_store {a k : Nat} (hlen : bytes.length ≤ 4096) (hk : k < bytes.length) :
    (m.store a bytes).read ((a + k) % 4096) = bytes[k] := by
  induction bytes generalizing m a k with
  | nil => exact absurd hk (Nat.not_lt_zero k)
  | cons b bytes ih =>
    rw [List.length_cons] at hlen hk
    cases k with
    | zero =>
      have hrest : ∀ j < bytes.length, (a + 0) % 4096 % 4096 ≠ (a + 1 + j) % 4096 := by
        intro j hj
        omega
      rw [store, read_store_of_ne _ _ hrest, read_write, if_pos (by simp)]
      rfl
    | succ k =>
      have hnext : (a + (k + 1)) % 4096 = (a + 1 + k) % 4096 := by
        rw [Nat.add_right_comm, Nat.add_assoc]
      rw [store, hnext, ih _ (by omega) (by omega)]
      rfl

end Memory

/-! ## Registers -/

namespace Registers

variable (r : Registers) {x k : Reg}

theorem getElem_upTo (h : k.val < (r.upTo x).length) : (r.upTo x)[k.val] = r.get k := by
  simp only [upTo, List.getElem_take, Vector.getElem_toList, get, Fin.getElem_fin]

theorem get_putUpTo_of_le (hk : k ≤ x) (bytes : Nat → UInt8) :
    (r.putUpTo x bytes).get k = bytes k.val := by
  simp only [get, putUpTo, Fin.getElem_fin, getElem_tabulate, Fin.eta, if_pos hk]

/-- Where the index is after a transfer of `V0` to `Vx`. -/
def indexAfter (r : Registers) (x : Reg) : Nat :=
  if r.dialect.advancesIndex then (r.i.toNat + x.val + 1) % 65536 else r.i.toNat

/-- A transfer leaves the index where the dialect says. -/
theorem toNat_index_advanceIndex (x : Reg) :
    (r.advanceIndex (x.val + 1)).i.toNat = r.indexAfter x := by
  rw [index_advanceIndex, indexAfter]
  split
  · have hx : (UInt16.ofNat (x.val + 1)).toNat = x.val + 1 := by
      rw [UInt16.toNat_ofNat']
      omega
    rw [UInt16.toNat_add, hx, Nat.add_assoc]
  · rfl

end Registers

/-- A byte is its decimal digits. -/
theorem decimal_digits (b : UInt8) :
    b / 100 ≤ 9 ∧ b / 10 % 10 ≤ 9 ∧ b % 10 ≤ 9 ∧
      100 * (b / 100).toNat + 10 * (b / 10 % 10).toNat + (b % 10).toNat = b.toNat := by
  have hb := b.toNat_lt
  have hhundred : UInt8.toNat 100 = 100 := rfl
  have hten : UInt8.toNat 10 = 10 := rfl
  have hnine : UInt8.toNat 9 = 9 := rfl
  simp only [UInt8.le_iff_toNat_le, UInt8.toNat_mod, UInt8.toNat_div, hhundred, hten, hnine]
  omega

/-! ## Instructions -/

namespace Machine

/-- `m'` is what an instruction makes of `m`, be it carried out on its own or by a step. -/
inductive Performs (m : Machine) (i : Instruction) : Machine → Prop where
  | alone {entropy : List UInt8} {effect : Effect} (h : m.execute entropy i = .ok effect) :
    Performs m i effect.machine
  | step {entropy : List UInt8} (h : m.Fetches i) (hfault : (m.step entropy).fault = none) :
    Performs m i (m.step entropy).machine

/-- What an instruction makes of every machine, it also makes of one with its word on record. -/
theorem Performs.eq_left {m m' : Machine} {i : Instruction} (h : m.Performs i m') :
    ∃ word address entropy, m' = left
      ({ m with registers := { m.registers with lastWord := word, lastAddress := address } }.execute
        entropy i) := by
  cases h with
  | @alone entropy effect h =>
    refine ⟨m.registers.lastWord, m.registers.lastAddress, entropy, ?_⟩
    exact (congrArg left h).symm
  | @step entropy h hfault => exact ⟨_, _, entropy, h.machine_step entropy⟩

/-- What `Fx55` makes of a machine. -/
structure StoresUpTo (m : Machine) (x : Reg) (m' : Machine) : Prop where
  stored : ∀ r ≤ x, m'.memory.read ((m.registers.i.toNat + r.val) % 4096) = m.registers.get r
  kept : ∀ a ∉ Address.block m.registers.i.toNat (x.val + 1),
    m'.memory.read a.val = m.memory.read a.val
  registers : ∀ r, m'.registers.get r = m.registers.get r
  index : m'.registers.i.toNat = m.registers.indexAfter x

/-- What `Fx65` makes of a machine. -/
structure LoadsUpTo (m : Machine) (x : Reg) (m' : Machine) : Prop where
  loaded : ∀ r ≤ x, m'.registers.get r = m.memory.read ((m.registers.i.toNat + r.val) % 4096)
  kept : ∀ r > x, m'.registers.get r = m.registers.get r
  memory : m'.memory = m.memory
  index : m'.registers.i.toNat = m.registers.indexAfter x

/-- What `Fx33` makes of a machine: the hundreds, the tens and the units of a register stand in
memory. -/
structure StoresDecimal (m : Machine) (x : Reg) (m' : Machine) : Prop where
  digits : ∃ h t u : UInt8, (h ≤ 9 ∧ t ≤ 9 ∧ u ≤ 9) ∧
    100 * h.toNat + 10 * t.toNat + u.toNat = (m.registers.get x).toNat ∧
    m'.memory.read (m.registers.i.toNat % 4096) = h ∧
    m'.memory.read ((m.registers.i.toNat + 1) % 4096) = t ∧
    m'.memory.read ((m.registers.i.toNat + 2) % 4096) = u
  kept : ∀ a ∉ Address.block m.registers.i.toNat 3, m'.memory.read a.val = m.memory.read a.val

variable {m m' : Machine} {x : Reg}

/-- Storing registers stores each of them and nothing else. -/
theorem Performs.storesUpTo (h : m.Performs (.storeRegisters x) m') : m.StoresUpTo x m' := by
  obtain ⟨word, address, entropy, rfl⟩ := h.eq_left
  have hlen : (m.registers.upTo x).length = x.val + 1 := m.registers.length_upTo x
  refine ⟨?_, ?_, ?_, ?_⟩
  · intro r hr
    have hlt : r.val < (m.registers.upTo x).length := by
      rw [hlen]
      exact Nat.lt_succ_of_le hr
    rw [memory_execute]
    exact (m.memory.read_store _ (by omega) hlt).trans (m.registers.getElem_upTo hlt)
  · intro a ha
    rw [← hlen] at ha
    rw [memory_execute]
    exact m.memory.read_store_of_not_mem _ ha
  · exact fun r => Registers.get_advanceIndex _ _ r
  · exact Registers.toNat_index_advanceIndex _ x

/-- Loading registers loads each of them and nothing else. -/
theorem Performs.loadsUpTo (h : m.Performs (.loadRegisters x) m') : m.LoadsUpTo x m' := by
  obtain ⟨word, address, entropy, rfl⟩ := h.eq_left
  refine ⟨?_, ?_, ?_, ?_⟩
  · intro r hr
    calc _ = m.memory.read (m.registers.i.toNat + r.val) :=
          (Registers.get_advanceIndex _ _ r).trans (Registers.get_putUpTo_of_le _ hr _)
      _ = _ := m.memory.read_congr (Nat.mod_mod _ _).symm
  · intro r hr
    exact (Registers.get_advanceIndex _ _ r).trans (Registers.get_putUpTo_of_lt _ hr _)
  · exact memory_execute ..
  · exact Registers.toNat_index_advanceIndex _ x

/-- Storing a decimal stores its three digits and nothing else. -/
theorem Performs.storesDecimal (h : m.Performs (.storeDecimal x) m') : m.StoresDecimal x m' := by
  obtain ⟨word, address, entropy, rfl⟩ := h.eq_left
  have hlen : (decimalDigits (m.registers.get x)).length = 3 := rfl
  have hstored (k : Nat) (hk : k < 3) :=
    m.memory.read_store (a := m.registers.i.toNat) (decimalDigits (m.registers.get x))
      (by decide : 3 ≤ 4096) hk
  obtain ⟨hh, ht, hu, hsum⟩ := decimal_digits (m.registers.get x)
  refine ⟨⟨_, _, _, ⟨hh, ht, hu⟩, hsum, ?_, ?_, ?_⟩, ?_⟩
  · exact hstored 0 (by decide)
  · exact hstored 1 (by decide)
  · exact hstored 2 (by decide)
  · intro a ha
    exact m.memory.read_store_of_not_mem (decimalDigits (m.registers.get x)) ha

/-- **Transfers.** Whatever the index is, `Fx55` stores `V0` to `Vx` at as many addresses from it on
and leaves all other bytes alone; `Fx65` loads as many bytes from the addresses of its index. Loading
from the same index what was stored gives the registers back, whatever has become of them meanwhile.
Both use the index as it was, and move it on afterwards where the dialect asks for it. `Fx33` stores
the decimal digits of a register, and writes to no other address. None of these fails. -/
theorem block_transfer (m : Machine) (x : Reg) :
    (∀ m', m.Performs (.storeRegisters x) m' → m.StoresUpTo x m' ∧
      ∀ k k' : Machine, k.memory = m'.memory → k.registers.i = m.registers.i →
        k.Performs (.loadRegisters x) k' → ∀ r ≤ x, k'.registers.get r = m.registers.get r) ∧
    (∀ m', m.Performs (.loadRegisters x) m' → m.LoadsUpTo x m') ∧
    (∀ m', m.Performs (.storeDecimal x) m' → m.StoresDecimal x m') ∧
    (Address.block m.registers.i.toNat (x.val + 1))ᶜ.card = 4095 - x.val ∧
    ∀ i ∈ [.storeRegisters x, .loadRegisters x, .storeDecimal x], ∀ entropy,
      (∃ effect, m.execute entropy i = .ok effect) ∧
        (m.Fetches i → (m.step entropy).fault = none) := by
  refine ⟨?_, fun m' h => h.loadsUpTo, fun m' h => h.storesDecimal, ?_, ?_⟩
  · intro m' h
    have hstores := h.storesUpTo
    refine ⟨hstores, ?_⟩
    intro k k' hmemory hi hk r hr
    calc k'.registers.get r = k.memory.read ((k.registers.i.toNat + r.val) % 4096) :=
          hk.loadsUpTo.loaded r hr
      _ = m'.memory.read ((m.registers.i.toNat + r.val) % 4096) := by rw [hmemory, hi]
      _ = m.registers.get r := hstores.stored r hr
  · rw [Address.card_compl_block _ (by omega)]
    omega
  · intro i hi entropy
    have hexecute : ∀ b : Machine, ∃ effect, b.execute entropy i = .ok effect := by
      intro b
      simp only [List.mem_cons, List.not_mem_nil, or_false] at hi
      obtain rfl | rfl | rfl := hi <;> exact ⟨_, rfl⟩
    refine ⟨hexecute m, ?_⟩
    intro h
    obtain ⟨effect, he⟩ := hexecute m.recorded
    rw [step_of_ok h.fetchable ((carryOut_of_some h.instruction? entropy).trans he)]

/-- The two registers are stored in the last byte of memory and over the font, and the index wraps
to one, where a number is then stored in decimal. -/
theorem block_transfer_wrapped :
    let r := (Rig.start 500 ⟨false, true⟩ 0 []).after
      [.load #[0x60, 0x7B, 0x61, 0xFF, 0xF1, 0x55, 0xF1, 0x65, 0xF0, 0x33], .run 2]
    let m : Machine := { r.machine with registers := { r.machine.registers with i := 0xFFFF } }
    let m' := (m.step []).machine
    let cleared : Registers := { m'.registers with v := Vector.replicate 16 0, i := 0xFFFF }
    let k : Machine := { m' with registers := cleared }
    let k' := (k.step []).machine
    let last := (k'.step []).machine
    (m.Performs (.storeRegisters 1) m' ∧ m.StoresUpTo 1 m' ∧ m'.registers.i.toNat = 1) ∧
    (k.Performs (.loadRegisters 1) k' ∧ k.LoadsUpTo 1 k' ∧ k.registers.get 0 = 0 ∧
      k'.registers.get 0 = m.registers.get 0) ∧
    k'.Performs (.storeDecimal 0) last ∧ k'.StoresDecimal 0 last := by
  intro r m m' cleared k k' last
  have hm : m.Fetches (.storeRegisters 1) := ⟨by decide +kernel, by decide +kernel⟩
  have hk : k.Fetches (.loadRegisters 1) := ⟨by decide +kernel, by decide +kernel⟩
  have hk' : k'.Fetches (.storeDecimal 0) := ⟨by decide +kernel, by decide +kernel⟩
  have hstore : m.Performs (.storeRegisters 1) m' :=
    .step hm (((m.block_transfer 1).2.2.2.2 _ (by simp) []).2 hm)
  have hload : k.Performs (.loadRegisters 1) k' :=
    .step hk (((k.block_transfer 1).2.2.2.2 _ (by simp) []).2 hk)
  have hdecimal : k'.Performs (.storeDecimal 0) last :=
    .step hk' (((k'.block_transfer 0).2.2.2.2 _ (by simp) []).2 hk')
  obtain ⟨hstores, hback⟩ := (m.block_transfer 1).1 m' hstore
  have hindex : m'.registers.i.toNat = 1 := by decide +kernel
  have hzero : k.registers.get 0 = 0 := by decide +kernel
  have hsame : k.registers.i = m.registers.i := by rfl
  have hmemory : k.memory = m'.memory := by dsimp only [k]
  have hfirst : k'.registers.get 0 = m.registers.get 0 :=
    hback k k' hmemory hsame hload 0 (by decide)
  have hloads : k.LoadsUpTo 1 k' := (k.block_transfer 1).2.1 k' hload
  have hdigits : k'.StoresDecimal 0 last := (k'.block_transfer 0).2.2.1 last hdecimal
  exact ⟨⟨hstore, hstores, hindex⟩, ⟨hload, hloads, hzero, hfirst⟩, hdecimal, hdigits⟩

end Machine
end ChipEight
