import ChipEight.Proofs.Lockstep

/-!
# The index counts modulo the size of memory

The index has sixteen bits and wraps there, while every access to memory takes the lowest twelve
bits of an address. The four bits above are carried along and never seen: two machines whose indices
name the same address, and which agree in all else, are in lockstep
(`Machine.sameAddress_lockstep`). Only a saved state tells them apart, as it holds the whole index
(`Rig.index_modulo`).
-/

namespace ChipEight

/-! ## Memory -/

namespace Memory

variable (m : Memory) {a c : Nat}

theorem write_congr (h : a % 4096 = c % 4096) (b : UInt8) : m.write a b = m.write c b := by
  simp only [write, Address.lowest_eq_iff.2 h]

theorem block_congr (h : a % 4096 = c % 4096) (n : Nat) : m.block a n = m.block c n := by
  unfold block
  refine List.map_congr_left fun k _ => ?_
  exact m.read_congr (by omega)

/-- Bytes are stored at the same place from addresses that are congruent. -/
theorem store_congr (h : a % 4096 = c % 4096) (bytes : List UInt8) :
    m.store a bytes = m.store c bytes := by
  induction bytes generalizing m a c with
  | nil => rfl
  | cons b bytes ih =>
    have hnext : (a + 1) % 4096 = (c + 1) % 4096 := by omega
    simp only [store]
    rw [m.write_congr h, ih _ hnext]

end Memory

/-! ## Registers -/

namespace Registers

/-- The registers differ at most in the index, which names the same address. -/
structure SameAddress (r r' : Registers) : Prop where
  rest : r' = { r with i := r'.i }
  address : r'.i.toNat % 4096 = r.i.toNat % 4096

theorem SameAddress.refl (r : Registers) : r.SameAddress r :=
  ⟨rfl, rfl⟩

/-- Sums wrap at a multiple of the size of memory. -/
theorem toNat_add_congr {i i' : UInt16} (h : i'.toNat % 4096 = i.toNat % 4096) (n : UInt16) :
    (i' + n).toNat % 4096 = (i + n).toNat % 4096 := by
  rw [UInt16.toNat_add, UInt16.toNat_add]
  omega

variable {r : Registers} {i : UInt16}

theorem withIndex_sparesFlow : SparesFlow fun r => { r with i } :=
  fun _ _ _ _ => rfl

theorem putFlagged_withIndex (x : Reg) (p : UInt8 × Option UInt8) :
    { r with i }.putFlagged x p = { r.putFlagged x p with i } := by
  rcases p with ⟨b, _ | flag⟩ <;> rfl

theorem advanceIndex_sameAddress (h : i.toNat % 4096 = r.i.toNat % 4096) (n : Nat) :
    (r.advanceIndex n).next.SameAddress ({ r with i }.advanceIndex n).next := by
  unfold advanceIndex
  split
  · exact ⟨rfl, toNat_add_congr h _⟩
  · exact ⟨rfl, h⟩

end Registers

/-! ## Machines -/

namespace Machine

def withIndex (m : Machine) (i : UInt16) : Machine :=
  { m with registers := { m.registers with i } }

/-- The machines differ at most in the index, which names the same address. -/
structure SameAddress (m m' : Machine) : Prop where
  rest : m' = { m with registers := m'.registers }
  registers : m.registers.SameAddress m'.registers

theorem SameAddress.refl (m : Machine) : m.SameAddress m :=
  ⟨rfl, .refl m.registers⟩

theorem SameAddress.eq {m m' : Machine} (h : m.SameAddress m') :
    m' = m.withIndex m'.registers.i := by
  unfold withIndex
  rw [← h.registers.rest]
  exact h.rest

/-! ## Steps -/

section Steps

variable {m : Machine} {i : UInt16} (h : i.toNat % 4096 = m.registers.i.toNat % 4096)

include h

theorem withIndex_sameAddress : m.SameAddress (m.withIndex i) :=
  ⟨rfl, rfl, h⟩

/-- A sprite is the same at a congruent index. -/
theorem drawSprite_withIndex (x y : Reg) (n : Digit) :
    (m.drawSprite x y n).SameAddress ((m.withIndex i).drawSprite x y n) := by
  have hblock : m.memory.block i.toNat n.val = m.memory.block m.registers.i.toNat n.val :=
    m.memory.block_congr h n.val
  have hdraw : (m.withIndex i).drawSprite x y n = (m.drawSprite x y n).withIndex i := by
    simp only [drawSprite, withIndex, hblock]
    rfl
  rw [hdraw]
  exact ⟨rfl, rfl, h⟩

/-- Waiting for a key does not look at the index. -/
theorem awaitKey_withIndex (entropy : List UInt8) (x : Reg) :
    Effect.Alike SameAddress (.ok (m.awaitKey entropy x))
      (.ok ((m.withIndex i).awaitKey entropy x)) := by
  rcases m.awaitKey_cases entropy x with ⟨hmode, he⟩ | ⟨hmode, hnone, he⟩ | ⟨hmode, key, hsome, he⟩
  · rw [he, awaitKey_of_running (m := m.withIndex i) hmode]
    exact .ok ⟨rfl, rfl, h⟩
  · rw [he, awaitKey_of_none (m := m.withIndex i) hmode hnone]
    exact .ok ⟨rfl, rfl, h⟩
  · rw [he, awaitKey_of_some (m := m.withIndex i) hmode hsome]
    exact .ok ⟨rfl, rfl, h⟩

/-- Each instruction that uses the index takes an address from it, adds to it or replaces it. -/
theorem execute_withIndex (entropy : List UInt8) (instruction : Instruction) :
    Effect.Alike SameAddress (m.execute entropy instruction)
      ((m.withIndex i).execute entropy instruction) := by
  cases instruction with
  | ret =>
    have hsp : (m.withIndex i).registers.sp = m.registers.sp := rfl
    have hret : (m.withIndex i).registers.ret = _ := Registers.withIndex_sparesFlow.ret m.registers
    simp only [execute]
    rw [hsp, hret]
    split
    · exact .ok ⟨rfl, rfl, h⟩
    · next hne =>
      rcases m.registers.ret_cases hne with ⟨k, hk, htop, hr⟩ | ⟨hb, hr⟩
      · rw [hr]
        exact .ok ⟨rfl, rfl, h⟩
      · rw [hr]
        exact .error ⟨rfl, rfl, h⟩
  | call nnn =>
    have hsp : (m.withIndex i).registers.sp = m.registers.sp := rfl
    have hcall : (m.withIndex i).registers.call (UInt64.ofNat nnn.val) = _ :=
      Registers.withIndex_sparesFlow.call m.registers _
    simp only [execute]
    rw [hsp, hcall]
    split
    · exact .ok ⟨rfl, rfl, h⟩
    · rcases m.registers.call_cases (UInt64.ofNat nnn.val) with ⟨hb, hr⟩ | ⟨hb, hr⟩
      · rw [hr]
        exact .ok ⟨rfl, rfl, h⟩
      · rw [hr]
        exact .error ⟨rfl, rfl, h⟩
  | alu op x y =>
    let p := op.eval m.registers.dialect (m.registers.get x) (m.registers.get y)
    have hput : (m.withIndex i).registers.putFlagged x p =
        { m.registers.putFlagged x p with i } := Registers.putFlagged_withIndex x p
    have hindex : (m.registers.putFlagged x p).i = m.registers.i := Registers.index_putFlagged _ x p
    change Effect.Alike SameAddress
      (.ok (.ofRegisters m entropy (m.registers.putFlagged x p).next))
      (.ok (.ofRegisters (m.withIndex i) entropy ((m.withIndex i).registers.putFlagged x p).next))
    rw [hput]
    refine .ok ⟨rfl, rfl, ?_⟩
    change i.toNat % 4096 = (m.registers.putFlagged x p).i.toNat % 4096
    rw [hindex, h]
  | setIndex nnn => exact .ok ⟨rfl, rfl, rfl⟩
  | pointGlyph x => exact .ok ⟨rfl, rfl, rfl⟩
  | addIndex x => exact .ok ⟨rfl, rfl, Registers.toNat_add_congr h _⟩
  | draw x y n => exact .ok (drawSprite_withIndex h x y n)
  | awaitKey x =>
    rw [execute_awaitKey, execute_awaitKey]
    exact awaitKey_withIndex h entropy x
  | storeDecimal x =>
    simp only [execute, withIndex]
    rw [m.memory.store_congr h]
    exact .ok ⟨rfl, rfl, h⟩
  | storeRegisters x =>
    simp only [execute, withIndex]
    rw [m.memory.store_congr h]
    exact .ok ⟨rfl, Registers.advanceIndex_sameAddress h _⟩
  | loadRegisters x =>
    have hread : ∀ k, m.memory.read (i.toNat + k) = m.memory.read (m.registers.i.toNat + k) :=
      fun k => m.memory.read_congr (by omega)
    simp only [execute, withIndex, hread]
    exact .ok ⟨rfl, Registers.advanceIndex_sameAddress (r := m.registers.putUpTo x _) h _⟩
  | _ => exact .ok ⟨rfl, rfl, h⟩

/-- Whatever is fetched comes to the same with a congruent index. -/
theorem carryOut_withIndex (entropy : List UInt8) :
    Effect.Alike SameAddress (m.carryOut entropy) ((m.withIndex i).carryOut entropy) := by
  have hi : (m.withIndex i).instruction? = m.instruction? := rfl
  unfold carryOut
  rw [hi]
  split
  · exact execute_withIndex (m := m.recorded) h entropy _
  · exact .ok ⟨rfl, rfl, h⟩

end Steps

/-- Machines whose indices name the same address are in lockstep. -/
theorem sameAddress_lockstep : Machine.Lockstep SameAddress where
  clock h := by rw [h.eq]; rfl
  memory h := by rw [h.eq]; rfl
  isHeld code h := by rw [h.eq]; rfl
  withClock c h := by
    rw [h.eq]
    exact ⟨rfl, rfl, h.registers.address⟩
  withProgram program _ h := by
    rw [h.eq]
    exact ⟨rfl, rfl, h.registers.address⟩
  reset {m m'} now h := by
    -- nothing of the registers but the dialect is left by a reset
    have hreset : m'.reset now = m.reset now := by
      rw [h.eq]
      rfl
    rw [hreset]
    exact ⟨.refl _, rfl⟩
  press code h := by
    rw [h.eq]
    exact ⟨rfl, rfl, h.registers.address⟩
  release code h := by
    rw [h.eq]
    exact ⟨rfl, rfl, h.registers.address⟩
  beginWait h := by
    rw [h.eq]
    exact ⟨rfl, rfl, h.registers.address⟩
  releaseAll h := by
    rw [h.eq]
    exact ⟨rfl, rfl, h.registers.address⟩
  displayFrame h := by
    rw [h.eq]
    exact ⟨rfl, rfl, rfl, h.registers.address⟩
  step {m m'} entropy h := by
    rw [h.eq]
    exact step_alike (withIndex_sameAddress h.registers.address) rfl rfl
      (carryOut_withIndex h.registers.address entropy)

end Machine

/-! ## Requests -/

namespace Rig

/-- Rigs whose machines differ only in what the index has above an address answer all requests
alike, unless they are asked for their states. -/
theorem Alike.apply_sameAddress {d : Nat} {r r' : Rig} (q : Request) (hq : q ≠ .save)
    (h : r.Alike Machine.SameAddress d r') :
    (r.apply q).Alike Machine.SameAddress d (r'.apply (q.shift d)) := by
  cases q with
  | takePress =>
    have hkeypad : r'.machine.keypad = r.machine.keypad := by
      rw [h.machine.eq]
      rfl
    refine ⟨?_, rfl, h.withMachine (Machine.sameAddress_lockstep.beginWait h.machine)⟩
    exact congrArg (fun k : Keypad => Reply.key k.latch) hkeypad
  | save => exact absurd rfl hq
  | restore bytes => exact h.restore fun m _ => .refl m
  | _ => exact Machine.sameAddress_lockstep.apply h _ trivial

/-- **The index counts modulo the size of memory.** Let two rigs be the same but for their indices,
which name the same address. Whatever both are asked for, other than their states, they answer alike
and report alike, and at any time they are the same but for their indices, which still name the same
address. -/
theorem index_modulo (r : Rig) (i : UInt16)
    (hi : i.toNat % 4096 = r.machine.registers.i.toNat % 4096) (qs : List Request)
    (hqs : .save ∉ qs) :
    let r' := r.withMachine { r.machine with registers := { r.machine.registers with i } }
    let last := r.after qs
    let last' := r'.after qs
    r'.replies qs = r.replies qs ∧ r'.log qs = r.log qs ∧
      last' = last.withMachine { last.machine with
        registers := { last.machine.registers with i := last'.machine.registers.i } } ∧
      last'.machine.registers.i.toNat % 4096 = last.machine.registers.i.toNat % 4096 := by
  intro r' last last'
  have halike : r.Alike Machine.SameAddress 0 r' :=
    ⟨Machine.withIndex_sameAddress hi, rfl, rfl, rfl⟩
  have hshift : qs.map (·.shift 0) = qs := by
    simp only [Request.shift_zero, List.map_id']
  obtain ⟨hreplies, hlog, hlast⟩ := halike.after (C := (· ≠ .save)) Alike.apply_sameAddress
    fun q hq he => hqs (he ▸ hq)
  rw [hshift] at hreplies hlog hlast
  refine ⟨hreplies, hlog, ?_, hlast.machine.registers.address⟩
  have hmachine : last'.machine = last.machine.withIndex last'.machine.registers.i :=
    hlast.machine.eq
  calc last' = ⟨last'.machine, last'.now, last'.entropy, last'.keypad⟩ := rfl
    _ = last.withMachine last'.machine := by
      rw [hlast.now, hlast.entropy, hlast.keypad]
      rfl
    _ = _ := by
      rw [hmachine]
      rfl

/-- The one index goes past the top of memory and the other wraps to zero, where both store over the
font and draw. -/
theorem index_modulo_wrapped :
    let r := (Rig.start 500 ⟨false, true⟩ 0 []).after
      [.load #[0xAF, 0xFE, 0x61, 0x03, 0xF1, 0x1E, 0xF1, 0x55, 0xD0, 0x15], .run 1]
    let r' := r.withMachine { r.machine with registers := { r.machine.registers with i := 0xFFFE } }
    let qs := [.run 4, .displayFrame, .debugFrame]
    UInt16.toNat 0xFFFE % 4096 = r.machine.registers.i.toNat % 4096 ∧ .save ∉ qs ∧
      r'.replies qs = r.replies qs ∧
      (r.after qs).machine.registers.i = 0x1003 ∧ (r'.after qs).machine.registers.i = 0x0003 := by
  intro r r' qs
  have hi : UInt16.toNat 0xFFFE % 4096 = r.machine.registers.i.toNat % 4096 := by decide +kernel
  have hqs : .save ∉ qs := by simp [qs]
  obtain ⟨hreplies, -⟩ := r.index_modulo 0xFFFE hi qs hqs
  exact ⟨hi, hqs, hreplies, by decide +kernel, by decide +kernel⟩

end Rig
end ChipEight
