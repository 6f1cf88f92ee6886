import ChipEight.Proofs.Soundness

/-!
# Subroutines

A call puts its own address on the stack, and the return that matches it goes on just past that
address. In between the program may do what it likes, as long as it does not return too often: the
slots below the stack pointer are out of its reach (`Registers.Flow.sameBelow`), so what was on the
stack when the subroutine was entered is still there when it is left, although the calls it makes
come and go above (`Rig.Reachable.subroutine`).
-/

namespace ChipEight

/-! ## Slots -/

namespace Registers

/-- The slots below the `n`th are the same. -/
def SameBelow (n : Nat) (r r' : Registers) : Prop :=
  ∀ k (_ : k < 16), k < n → r'.stack[k] = r.stack[k]

theorem SameBelow.of_eq {n : Nat} {r r' : Registers} (h : r'.stack = r.stack) :
    r.SameBelow n r' := by
  intro k _ _
  simp only [h]

theorem SameBelow.trans {n : Nat} {r r' r'' : Registers} (h : r.SameBelow n r')
    (h' : r'.SameBelow n r'') : r.SameBelow n r'' := by
  intro k hk hkn
  rw [h' k hk hkn, h k hk hkn]

/-- Instructions leave alone what lies below the stack pointer. -/
theorem Flow.sameBelow {r r' : Registers} {i : Option Instruction} (hf : Flow r i r') {n : Nat}
    (hn : n ≤ r.sp.toNat) : r.SameBelow n r' := by
  cases hf with
  | straight hsp hstack hpc => exact .of_eq hstack
  | jump hsp hstack hpc => exact .of_eq hstack
  | jumpBy hsp hstack hpc => exact .of_eq hstack
  | ret hk htop hsp hstack hpc => exact .of_eq hstack
  | call hb hsp hstack hpc =>
    -- the slot that a call writes is the one at the stack pointer
    intro k hk hkn
    have hne : r.sp.toNat ≠ k := by omega
    simp only [hstack, Vector.getElem_set, if_neg hne]

end Registers

/-! ## Calls and returns -/

namespace Machine

variable {m : Machine} (hf : fetchable m.registers.pc = true)

include hf

/-- A call that the stack has room for. -/
theorem step_call {nnn : Address} (hi : m.instruction? = some (.call nnn))
    (hb : m.registers.sp.toNat < 16) (entropy : List UInt8) :
    m.step entropy =
      ⟨none, { m.recorded with registers :=
          { m.recorded.registers with
            stack := m.registers.stack.set m.registers.sp.toNat m.registers.pc
            sp := m.registers.sp + 1
            pc := UInt64.ofNat nnn.val } },
        entropy, [.fetched m.registers.pc m.nextWord]⟩ := by
  refine step_of_ok hf (?_ : m.carryOut entropy = .ok ⟨_, _, []⟩)
  rw [carryOut_of_some hi]
  rcases m.recorded.execute_call_cases entropy nnn with ⟨hsp, he⟩ | ⟨_, he⟩ | ⟨hsp, he⟩
  · have hsp' : m.registers.sp = 16 := hsp
    rw [hsp'] at hb
    exact absurd hb (by decide)
  · exact he
  · have hsp' : 16 < m.registers.sp.toNat := hsp
    omega

/-- A call on a full stack is passed over. -/
theorem step_call_of_full {nnn : Address} (hi : m.instruction? = some (.call nnn))
    (hfull : m.registers.sp = 16) (entropy : List UInt8) :
    m.step entropy =
      ⟨none, { m.recorded with registers := m.recorded.registers.next }, entropy,
        [.fetched m.registers.pc m.nextWord, .stackOverflow nnn m.registers.pc]⟩ := by
  refine step_of_ok hf (?_ : m.carryOut entropy = .ok ⟨_, _, [_]⟩)
  rw [carryOut_of_some hi]
  exact if_pos hfull

/-- A return to the call on top of the stack. -/
theorem step_ret (hi : m.instruction? = some .ret) {k : Nat} (hk : k < 16)
    (htop : m.registers.sp.toNat = k + 1) (entropy : List UInt8) :
    m.step entropy =
      ⟨none, { m.recorded with registers :=
          { m.recorded.registers with
            sp := m.registers.sp - 1
            pc := m.registers.stack[k] + 2 } },
        entropy, [.fetched m.registers.pc m.nextWord]⟩ := by
  refine step_of_ok hf (?_ : m.carryOut entropy = .ok ⟨_, _, []⟩)
  rw [carryOut_of_some hi]
  rcases m.recorded.execute_ret_cases entropy with ⟨hsp, he⟩ | ⟨j, hj, htop', he⟩ | ⟨hsp, he⟩
  · have hsp' : m.registers.sp = 0 := hsp
    rw [hsp'] at htop
    exact absurd htop (Nat.succ_ne_zero k).symm
  · have hj' : m.registers.sp.toNat = j + 1 := htop'
    obtain rfl : j = k := by omega
    exact he
  · have hsp' : 16 < m.registers.sp.toNat := hsp
    omega

/-- A return on an empty stack is passed over. -/
theorem step_ret_of_empty (hi : m.instruction? = some .ret) (hempty : m.registers.sp = 0)
    (entropy : List UInt8) :
    m.step entropy =
      ⟨none, { m.recorded with registers := m.recorded.registers.next }, entropy,
        [.fetched m.registers.pc m.nextWord, .stackUnderflow m.registers.pc]⟩ := by
  refine step_of_ok hf (?_ : m.carryOut entropy = .ok ⟨_, _, [_]⟩)
  rw [carryOut_of_some hi]
  exact if_pos hempty

omit hf

/-- Steps leave alone what lies below the stack pointer. -/
theorem Sound.sameBelow_step (h : m.Sound) (entropy : List UInt8) {n : Nat}
    (hn : n ≤ m.registers.sp.toNat) :
    m.registers.SameBelow n (m.step entropy).machine.registers := by
  cases hf : fetchable m.registers.pc with
  | false =>
    rw [step_of_not_fetchable hf]
    exact .of_eq rfl
  | true => exact (h.flow_step entropy hf).sameBelow hn

/-- The stack pointer comes down past a depth only by the return from there. -/
theorem Sound.sp_step_le_iff (h : m.Sound) (entropy : List UInt8) {d : Nat}
    (hd : d < m.registers.sp.toNat) :
    (m.step entropy).machine.registers.sp.toNat ≤ d ↔
      fetchable m.registers.pc = true ∧ m.instruction? = some .ret ∧
        m.registers.sp.toNat = d + 1 := by
  have hsp := h.registers.sp_le
  constructor
  · intro hle
    cases hf : fetchable m.registers.pc with
    | false =>
      rw [step_of_not_fetchable hf] at hle
      exact absurd hd (Nat.not_lt.2 hle)
    | true =>
      have hflow := h.flow_step entropy hf
      generalize m.instruction? = i at hflow ⊢
      cases hflow with
      | straight hsp' | jump hsp' | jumpBy hsp' =>
        rw [hsp'] at hle
        exact absurd hd (Nat.not_lt.2 hle)
      | call hb hsp' =>
        rw [hsp', Registers.toNat_sp_succ hb] at hle
        omega
      | ret hk htop hsp' =>
        rw [hsp', Registers.toNat_sp_pred htop] at hle
        exact ⟨rfl, rfl, by omega⟩
  · rintro ⟨hf, hi, htop⟩
    rw [step_ret hf hi (k := d) (by omega) htop]
    exact Nat.le_of_eq (Registers.toNat_sp_pred htop)

/-- The return by which the stack pointer comes down past a depth goes on after the call there. -/
theorem Sound.step_of_sp_le (h : m.Sound) (entropy : List UInt8) {d : Nat} (hd : d < 16)
    (hdeep : d < m.registers.sp.toNat)
    (hle : (m.step entropy).machine.registers.sp.toNat ≤ d) :
    (m.step entropy).machine.registers.sp.toNat = d ∧
      (m.step entropy).machine.registers.pc = m.registers.stack[d] + 2 ∧
      (m.step entropy).machine.registers.stack = m.registers.stack := by
  rcases (h.sp_step_le_iff entropy hdeep).1 hle with ⟨hf, hi, htop⟩
  rw [step_ret hf hi hd htop]
  exact ⟨Registers.toNat_sp_pred htop, rfl, rfl⟩

end Machine

/-! ## Histories of single steps -/

/-- Whether a request touches the registers by one step at most. -/
def Request.IsSingle : Request → Prop
  | .load _ | .reset | .run _ | .update | .restore _ | .drive .. => False
  | _ => True

theorem Request.IsSingle.isPlain {q : Request} (h : q.IsSingle) : q.IsPlain := by
  cases q with
  | restore bytes => exact h.elim
  | drive maxSteps deltas recorder => exact h.elim
  | _ => trivial

namespace Rig

theorem machine_apply_step (r : Rig) :
    (r.apply .step).rig.machine = (r.machine.step r.entropy).machine :=
  rfl

/-- Of the requests that carry out at most one step, only that for a step touches the registers. -/
theorem registers_apply (r : Rig) {q : Request} (hq : q.IsSingle) :
    q = .step ∨ (r.apply q).rig.machine.registers = r.machine.registers := by
  cases q with
  | step => exact .inl rfl
  | pressBy handle code | releaseBy handle code =>
    exact .inr (r.throughHandle_machine (P := fun m => m.registers = r.machine.registers) handle _
      fun _ => rfl)
  | load program | reset | run n | update | restore bytes | drive maxSteps deltas recorder =>
    exact hq.elim
  | _ => exact .inr rfl

/-- While the stack pointer does not come down below some slot, the slots under it stay as they
are. -/
theorem Reachable.sameBelow_after {r : Rig} (h : r.Reachable) {n : Nat} {qs : List Request}
    (hqs : ∀ q ∈ qs, q.IsSingle)
    (hdeep : ∀ ps, ps <+: qs → n ≤ (r.after ps).machine.registers.sp.toNat) :
    r.machine.registers.SameBelow n (r.after qs).machine.registers := by
  induction qs generalizing r with
  | nil => exact .of_eq rfl
  | cons q qs ih =>
    have hq := hqs q List.mem_cons_self
    have hfirst : r.machine.registers.SameBelow n (r.apply q).rig.machine.registers := by
      rcases r.registers_apply hq with rfl | hsame
      · exact h.sound.sameBelow_step r.entropy (hdeep [] List.nil_prefix)
      · exact .of_eq (congrArg Registers.stack hsame)
    refine hfirst.trans (ih (h.apply q hq.isPlain) ?_ ?_)
    · intro p hp
      exact hqs p (List.mem_cons_of_mem q hp)
    · intro ps hps
      exact hdeep (q :: ps) ((List.prefix_cons_inj q).2 hps)

/-- **Subroutines.** Let the stack have room for the call at the program counter. Whatever the
program does once it is called, one step after the other and with anything going on in between that
does not start it afresh: for as long as the stack pointer stays above the slot of the call, that
slot holds the address of the call and the slots below hold what they held. The stack pointer comes
down to the slot only by a return from just above it, and that return goes on two bytes past the
call and leaves the stack as it is. Calls on a full stack and returns on an empty one leave the
stack alone. -/
theorem Reachable.subroutine {r : Rig} (h : r.Reachable)
    (hf : Machine.fetchable r.machine.registers.pc = true) :
    (∀ nnn d (_ : d < 16), r.machine.instruction? = some (.call nnn) →
      r.machine.registers.sp.toNat = d →
      let call := r.machine.registers.pc
      let called := (r.apply .step).rig
      ((r.apply .step).reply = .done ∧
        called.machine.registers.sp.toNat = d + 1 ∧
        called.machine.registers.pc.toNat = nnn.val) ∧
      ∀ qs, (∀ q ∈ qs, q.IsSingle) →
        (∀ ps, ps <+: qs → d < (called.after ps).machine.registers.sp.toNat) →
        let last := called.after qs
        let next := (last.apply .step).rig
        ((∀ k (_ : k < 16), k < d →
            last.machine.registers.stack[k] = r.machine.registers.stack[k]) ∧
          last.machine.registers.stack[d] = call) ∧
        (next.machine.registers.sp.toNat ≤ d ↔
          Machine.fetchable last.machine.registers.pc = true ∧
          last.machine.instruction? = some .ret ∧ last.machine.registers.sp.toNat = d + 1) ∧
        (next.machine.registers.sp.toNat ≤ d →
          next.machine.registers.sp.toNat = d ∧
          next.machine.registers.pc.toNat = call.toNat + 2 ∧
          next.machine.registers.stack = last.machine.registers.stack)) ∧
    (((∃ nnn, r.machine.instruction? = some (.call nnn)) ∧ r.machine.registers.sp = 16 ∨
        r.machine.instruction? = some .ret ∧ r.machine.registers.sp = 0) →
      (r.apply .step).reply = .done ∧
      (r.apply .step).rig.machine.registers.sp = r.machine.registers.sp ∧
      (r.apply .step).rig.machine.registers.stack = r.machine.registers.stack) := by
  constructor
  · intro nnn d hd hi hsp call called
    have hb : r.machine.registers.sp.toNat < 16 := by omega
    have hcall := Machine.step_call hf hi hb r.entropy
    have hregisters : called.machine.registers =
        { r.machine.recorded.registers with
          stack := r.machine.registers.stack.set r.machine.registers.sp.toNat call
          sp := r.machine.registers.sp + 1
          pc := UInt64.ofNat nnn.val } := by
      simp only [called, machine_apply_step, hcall]
      rfl
    have hcalled : called.Reachable := h.apply .step trivial
    refine ⟨⟨?_, ?_, ?_⟩, ?_⟩
    · rw [apply_step, hcall]
    · rw [hregisters, ← hsp]
      exact Registers.toNat_sp_succ hb
    · rw [hregisters]
      exact Registers.toNat_address nnn
    · intro qs hqs hdeep last next
      have hlast : last.Reachable := hcalled.after fun q hq => (hqs q hq).isPlain
      have hsame := hcalled.sameBelow_after (n := d + 1) hqs hdeep
      have hslot : last.machine.registers.stack[d] = call := by
        rw [hsame d hd (Nat.lt_succ_self d), hregisters]
        simp only [hsp, Vector.getElem_set_self]
      have hdown := hlast.sound.sp_step_le_iff last.entropy (hdeep qs List.prefix_rfl)
      refine ⟨⟨?_, hslot⟩, hdown, ?_⟩
      · intro k hk hkd
        have hne : r.machine.registers.sp.toNat ≠ k := by omega
        rw [hsame k hk (by omega), hregisters]
        simp only [Vector.getElem_set, if_neg hne]
      · intro hle
        rcases hlast.sound.step_of_sp_le last.entropy hd (hdeep qs List.prefix_rfl) hle with
          ⟨hsp', hpc', hstack'⟩
        have hpc : next.machine.registers.pc = call + 2 := by
          rw [← hslot, ← hpc']
          rfl
        have hcall' := (Machine.fetchable_iff.1 hf).2
        refine ⟨hsp', ?_, hstack'⟩
        rw [hpc]
        exact Registers.toNat_add_of_le (b := 2) (Nat.le_trans hcall' (by decide)) (by decide)
  · rintro (⟨⟨nnn, hi⟩, hfull⟩ | ⟨hi, hempty⟩)
    · rw [apply_step, Machine.step_call_of_full hf hi hfull]
      exact ⟨rfl, rfl, rfl⟩
    · rw [apply_step, Machine.step_ret_of_empty hf hi hempty]
      exact ⟨rfl, rfl, rfl⟩

/-- The subroutine calls another one, which waits for a key; then both return. -/
theorem Reachable.subroutine_nested :
    let r := (Rig.start 500 .standard 0 []).after
      [.load #[0x22, 0x04, 0x12, 0x02, 0x22, 0x08, 0x00, 0xEE, 0xF0, 0x0A, 0x00, 0xEE]]
    let called := (r.apply .step).rig
    let qs := [.step, .step, .press 7, .wait 5, .step, .step]
    let last := called.after qs
    let next := (last.apply .step).rig
    r.Reachable ∧ r.machine.instruction? = some (.call 0x204) ∧
      r.machine.registers.sp.toNat = 0 ∧
      (∀ q ∈ qs, q.IsSingle) ∧ (called.after (qs.take 3)).machine.registers.sp.toNat = 2 ∧
      last.machine.registers.stack[0] = 0x200 ∧
      next.machine.registers.sp.toNat = 0 ∧ next.machine.registers.pc.toNat = 0x202 := by
  intro r called qs last next
  have h : r.Reachable := Rig.Reachable.after (.start ..) (by simp [Request.IsPlain])
  have hf : Machine.fetchable r.machine.registers.pc = true := by decide +kernel
  have hi : r.machine.instruction? = some (.call 0x204) := by decide +kernel
  have hsp : r.machine.registers.sp.toNat = 0 := by decide +kernel
  have hqs : ∀ q ∈ qs, q.IsSingle := by simp [qs, Request.IsSingle]
  have htake : ∀ n ≤ 6, 0 < (called.after (qs.take n)).machine.registers.sp.toNat := by
    decide +kernel
  have hdeep : ∀ ps, ps <+: qs → 0 < (called.after ps).machine.registers.sp.toNat := by
    intro ps hps
    rw [List.prefix_iff_eq_take.1 hps]
    exact htake ps.length hps.length_le
  have htwo : (called.after (qs.take 3)).machine.registers.sp.toNat = 2 := by decide +kernel
  have hdown : next.machine.registers.sp.toNat ≤ 0 := by decide +kernel
  have hstart : r.machine.registers.pc = 0x200 := by decide +kernel
  -- from here on it matters no more what the program is
  clear_value r qs
  rcases ((h.subroutine hf).1 0x204 0 (by decide) hi hsp).2 qs hqs hdeep with
    ⟨⟨-, hslot⟩, -, hreturn⟩
  rcases hreturn hdown with ⟨hzero, hpc, -⟩
  have hback : next.machine.registers.pc.toNat = 0x202 :=
    hpc.trans (congrArg (fun pc : UInt64 => pc.toNat + 2) hstart)
  exact ⟨h, hi, hsp, hqs, htwo, hslot.trans hstart, hzero, hback⟩

end Rig
end ChipEight
