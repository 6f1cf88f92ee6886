import Mathlib.Algebra.Ring.Parity
import ChipEight.Proofs.Footprint
import ChipEight.Proofs.History
import ChipEight.Proofs.Soundness

/-!
# Alignment

Instructions are two bytes long and programs start at an even address, so a program goes on at even
addresses until it jumps or calls to an odd one itself. The addresses it may return to are on the
stack, and what is kept is that these are even as well (`Registers.Aligned`). Skips, returns, waits,
faults and words that stand for nothing keep it. A step that leads to an odd address is a jump or a
call that names this very address (`Machine.OddTarget`), and if none of these is executed after the
program is loaded, it is aligned all the time (`History.aligned_run`).
-/

namespace ChipEight

/-! ## Registers -/

namespace Registers

/-- The addresses of calls that have not returned are even. -/
def EvenSlots (r : Registers) : Prop :=
  ∀ k (_ : k < 16), k < r.sp.toNat → Even r.stack[k].toNat

/-- The program counter is even, and so is every address that the program may return to. -/
structure Aligned (r : Registers) : Prop where
  pc : Even r.pc.toNat
  slots : r.EvenSlots

theorem aligned_start (dialect : Dialect) : (start dialect).Aligned where
  pc := (by decide : Even (UInt64.toNat 0x200))
  slots k _ hk := absurd hk (Nat.not_lt_zero k)

/-- Going on by an even number of bytes keeps an address even, also where it wraps. -/
theorem even_add {a b : UInt64} (ha : Even a.toNat) (hb : Even b.toNat) :
    Even (a + b).toNat := by
  rw [Nat.even_iff] at *
  rw [UInt64.toNat_add]
  omega

theorem EvenSlots.of_le {r r' : Registers} (h : r.EvenSlots) (hsp : r'.sp.toNat ≤ r.sp.toNat)
    (hstack : r'.stack = r.stack) : r'.EvenSlots := by
  intro k hk hlive
  simp only [hstack]
  exact h k hk (by omega)

theorem EvenSlots.of_eq {r r' : Registers} (h : r.EvenSlots) (hsp : r'.sp = r.sp)
    (hstack : r'.stack = r.stack) : r'.EvenSlots :=
  h.of_le (by rw [hsp]) hstack

end Registers

/-! ## Steps -/

namespace Machine

/-- The machine is about to jump to an odd address, or to call one. -/
inductive OddTarget (m : Machine) : Nat → Prop where
  | jump {nnn : Address} (h : m.Fetches (.jump nnn)) (hodd : Odd nnn.val) : OddTarget m nnn.val
  | call {nnn : Address} (h : m.Fetches (.call nnn)) (hodd : Odd nnn.val) : OddTarget m nnn.val
  | jumpBy {nnn : Address} (h : m.Fetches (.jumpBy nnn))
      (hodd : Odd (nnn.val + (m.registers.get .first).toNat)) :
    OddTarget m (nnn.val + (m.registers.get .first).toNat)

/-- An instruction that names no odd address and jumps by no register has no odd target. -/
theorem not_oddTarget_of_instruction {m : Machine} {i : Instruction} (hi : m.instruction? = some i)
    (heven : ∀ nnn, i = .jump nnn ∨ i = .call nnn → Even nnn.val) (hby : ∀ nnn, i ≠ .jumpBy nnn)
    (target : Nat) : ¬ m.OddTarget target := by
  intro h
  cases h with
  | @jump nnn h hodd =>
    have heq : i = .jump nnn := Option.some.inj (hi.symm.trans h.instruction?)
    exact Nat.not_even_iff_odd.2 hodd (heven nnn (.inl heq))
  | @call nnn h hodd =>
    have heq : i = .call nnn := Option.some.inj (hi.symm.trans h.instruction?)
    exact Nat.not_even_iff_odd.2 hodd (heven nnn (.inr heq))
  | @jumpBy nnn h _ => exact hby nnn (Option.some.inj (hi.symm.trans h.instruction?))

/-- A machine that breaks down goes nowhere, and has at most taken a slot from the stack. -/
theorem registers_of_broken {m broken : Machine} {entropy : List UInt8}
    (h : m.carryOut entropy = .error broken) :
    broken.registers.pc = m.registers.pc ∧ broken.registers.stack = m.registers.stack ∧
      broken.registers.sp.toNat ≤ m.registers.sp.toNat := by
  obtain ⟨hi | ⟨nnn, hi⟩, hdeep⟩ := (m.carryOut_error_iff entropy).1 ⟨broken, h⟩
  · rw [carryOut_of_some hi] at h
    obtain ⟨_, hr⟩ | ⟨_, _, _, hr⟩ | ⟨_, hr⟩ := m.recorded.execute_ret_cases entropy <;>
      rw [hr] at h <;> cases h
    refine ⟨rfl, rfl, ?_⟩
    have hone : (1 : UInt64) ≤ m.registers.sp := by
      refine UInt64.le_iff_toNat_le.2 ?_
      rw [UInt64.toNat_one]
      omega
    change (m.registers.sp - 1).toNat ≤ m.registers.sp.toNat
    rw [UInt64.toNat_sub_of_le _ _ hone]
    exact Nat.sub_le _ _
  · rw [carryOut_of_some hi] at h
    obtain ⟨_, hr⟩ | ⟨_, hr⟩ | ⟨_, hr⟩ := m.recorded.execute_call_cases entropy nnn <;>
      rw [hr] at h <;> cases h
    exact ⟨rfl, rfl, Nat.le_refl _⟩

/-- Where an instruction goes on from even addresses: at an even one, unless it is odd itself. -/
theorem aligned_flow {m : Machine} {r' : Registers} (h : m.registers.Aligned)
    (hf : fetchable m.registers.pc = true) (hflow : m.registers.Flow m.instruction? r') :
    r'.EvenSlots ∧ (Even r'.pc.toNat ∨ m.OddTarget r'.pc.toNat) := by
  have hfetches {i : Instruction} (hi : m.instruction? = some i) : m.Fetches i :=
    ⟨hf, Instruction.ofWord?_eq_some_iff.1 hi⟩
  generalize hi : m.instruction? = i at hflow
  cases hflow with
  | straight hsp hstack hpc =>
    refine ⟨h.slots.of_eq hsp hstack, .inl ?_⟩
    obtain hpc | hpc | hpc := hpc <;> rw [hpc]
    · exact h.pc
    · exact Registers.even_add h.pc (by decide : Even (UInt64.toNat 2))
    · exact Registers.even_add h.pc (by decide : Even (UInt64.toNat 4))
  | @jump nnn _ hsp hstack hpc =>
    refine ⟨h.slots.of_eq hsp hstack, ?_⟩
    rw [hpc, Registers.toNat_address]
    exact (Nat.even_or_odd _).imp_right (.jump (hfetches hi))
  | @jumpBy nnn _ hsp hstack hpc =>
    refine ⟨h.slots.of_eq hsp hstack, ?_⟩
    rw [hpc, Registers.toNat_jumpBy]
    exact (Nat.even_or_odd _).imp_right (.jumpBy (hfetches hi))
  | @call nnn _ hroom hsp hstack hpc =>
    constructor
    · intro k hk hlive
      simp only [hstack, Vector.getElem_set]
      -- the new slot holds the address of the call itself
      split
      · exact h.pc
      · refine h.slots k hk ?_
        rw [hsp, Registers.toNat_sp_succ hroom] at hlive
        omega
    · rw [hpc, Registers.toNat_address]
      exact (Nat.even_or_odd _).imp_right (.call (hfetches hi))
  | @ret _ k hk htop hsp hstack hpc =>
    constructor
    · refine h.slots.of_le ?_ hstack
      rw [hsp, Registers.toNat_sp_pred htop]
      omega
    · left
      rw [hpc]
      exact Registers.even_add (h.slots k hk (by omega)) (by decide : Even (UInt64.toNat 2))

/-- From aligned registers a step keeps the slots even, and leads to an odd address only if the
instruction names one. -/
theorem aligned_step {m : Machine} (entropy : List UInt8) (h : m.registers.Aligned) :
    let r' := (m.step entropy).machine.registers
    r'.EvenSlots ∧ (Even r'.pc.toNat ∨ m.OddTarget r'.pc.toNat) := by
  intro r'
  cases hf : fetchable m.registers.pc with
  | false =>
    have hr' : r' = m.registers :=
      congrArg (·.machine.registers) (step_of_not_fetchable hf entropy)
    rw [hr']
    exact ⟨h.slots, .inl h.pc⟩
  | true =>
    have hr' : r' = (left (m.carryOut entropy)).registers := by
      simp only [r', machine_step, if_pos hf]
    rw [hr']
    cases hc : m.carryOut entropy with
    | ok effect => exact aligned_flow h hf (flow_carryOut hc)
    | error broken =>
      obtain ⟨hpc, hstack, hsp⟩ := registers_of_broken hc
      refine ⟨h.slots.of_le hsp hstack, .inl ?_⟩
      change Even broken.registers.pc.toNat
      rw [hpc]
      exact h.pc

end Machine

/-! ## Runs -/

/-- As long as no step is taken to an odd address, a run stays aligned. -/
theorem Run.aligned_steps (n : Nat) {r : Run} (h : r.machine.registers.Aligned)
    (heven : ∀ j < n, (r.steps j).fault = none → ∀ target, ¬ (r.steps j).machine.OddTarget target) :
    (r.steps n).machine.registers.Aligned := by
  induction n generalizing r with
  | zero => exact h
  | succ n ih =>
    rw [steps_succ]
    split
    · exact h
    · next hfault =>
      have hnone : r.fault = none := by simpa using hfault
      obtain ⟨hslots, hpc⟩ := Machine.aligned_step r.entropy h
      have hfirst : r.step.machine.registers.Aligned :=
        ⟨hpc.resolve_right (heven 0 (Nat.succ_pos n) hnone _), hslots⟩
      refine ih hfirst ?_
      intro j hj
      have hnext : r.steps (j + 1) = r.step.steps j := by rw [steps_succ, if_neg hfault]
      rw [← hnext]
      exact heven (j + 1) (Nat.succ_lt_succ hj)

namespace Rig

/-- A request takes one of its steps at this machine. -/
def StepsAt (r : Rig) (q : Request) (m : Machine) : Prop :=
  ∃ j < r.stepsAsked q, (r.course q j).fault = none ∧ (r.course q j).machine = m

theorem registers_primed (r : Rig) (q : Request) : (r.primed q).registers = r.machine.registers := by
  cases q <;> rfl

/-- The registers are left as the steps of the request leave them. -/
theorem registers_apply_eq_course (r : Rig) {q : Request} (hq : q.IsPlain)
    (h : q.restarts = false) :
    (r.apply q).rig.machine.registers = (r.course q (r.stepsAsked q)).machine.registers := by
  cases q with
  | load program =>
    rw [r.apply_load_of_lt (Nat.not_le.1 (of_decide_eq_false h))]
    rfl
  | pressBy handle code | releaseBy handle code =>
    exact r.throughHandle_machine (P := fun m => m.registers = r.machine.registers) handle _
      fun _ => rfl
  | reset => cases h
  | restore bytes | drive maxSteps deltas recorder => exact hq.elim
  | _ => rfl

theorem aligned_course {r : Rig} {q : Request} (h : r.machine.registers.Aligned)
    (heven : ∀ m, r.StepsAt q m → ∀ target, ¬ m.OddTarget target) {k : Nat}
    (hk : k ≤ r.stepsAsked q) : (r.course q k).machine.registers.Aligned := by
  have hprimed : (r.primed q).registers.Aligned := r.registers_primed q ▸ h
  refine Run.aligned_steps k (r := .start (r.primed q) r.entropy) hprimed ?_
  intro j hj hfault
  exact heven _ ⟨j, Nat.lt_of_lt_of_le hj hk, hfault, rfl⟩

/-- A machine that restarts is aligned. -/
theorem aligned_of_restarts (r : Rig) {q : Request} (h : q.restarts = true) :
    (r.apply q).rig.machine.registers.Aligned := by
  obtain ⟨program, hrig⟩ := r.apply_of_restarts h
  have hregisters : (r.apply q).rig.machine.registers = .start r.machine.registers.dialect := by
    rw [hrig]
    exact congrArg Machine.registers (Machine.reset_fst _ _)
  rw [hregisters]
  exact Registers.aligned_start _

end Rig

/-! ## Histories -/

namespace History

/-- A step was taken at this machine on the way, since the program was loaded. -/
def StepsAt : History → Machine → Prop
  | start .., _ => False
  | feed past _, m => past.StepsAt m
  | ask past q _, m => (q.restarts = false ∧ past.StepsAt m) ∨ past.rig.StepsAt q m
  | restore _ saved, m => saved.StepsAt m

theorem not_stepsAt_of_restarts {r : Rig} {q : Request} (h : q.restarts = true) (m : Machine) :
    ¬ r.StepsAt q m := by
  rintro ⟨j, hj, -⟩
  cases q with
  | load program | reset => exact Nat.not_lt_zero j hj
  | _ => cases h

/-- **Alignment.** If no step since the program was loaded jumps to an odd address or calls one, the
program counter and the live stack slots are even whenever a step is taken and whenever the machine
is looked at, whatever the program writes and whatever happens in between. From even addresses a
single step comes to an odd program counter only by an instruction that names it, in whatever state
the machine is, and it leaves the live slots even all the same. -/
theorem aligned_run :
    (∀ h : History, (∀ m, h.StepsAt m → ∀ target, ¬ m.OddTarget target) →
      h.rig.machine.registers.Aligned ∧ ∀ m, h.StepsAt m → m.registers.Aligned) ∧
    ∀ (m : Machine) (entropy : List UInt8), m.registers.Aligned →
      let r' := (m.step entropy).machine.registers
      r'.EvenSlots ∧ (Even r'.pc.toNat ∨ m.OddTarget r'.pc.toNat) := by
  refine ⟨?_, fun m entropy => Machine.aligned_step entropy⟩
  intro h
  induction h with
  | start rate dialect now entropy =>
    intro _
    exact ⟨Registers.aligned_start dialect, fun m hm => hm.elim⟩
  | feed past entropy ih => exact ih
  | ask past q hq ih =>
    intro heven
    cases hrestarts : q.restarts with
    | true =>
      refine ⟨past.rig.aligned_of_restarts hrestarts, ?_⟩
      rintro m (⟨hkeeps, -⟩ | hm)
      · rw [hrestarts] at hkeeps
        cases hkeeps
      · exact absurd hm (not_stepsAt_of_restarts hrestarts m)
    | false =>
      obtain ⟨hlast, hbefore⟩ := ih fun m hm => heven m (.inl ⟨hrestarts, hm⟩)
      have hnow : ∀ m, past.rig.StepsAt q m → ∀ target, ¬ m.OddTarget target :=
        fun m hm => heven m (.inr hm)
      constructor
      · unfold rig
        rw [past.rig.registers_apply_eq_course hq hrestarts]
        exact Rig.aligned_course hlast hnow (Nat.le_refl _)
      · rintro m (⟨-, hm⟩ | ⟨j, hj, -, rfl⟩)
        · exact hbefore m hm
        · exact Rig.aligned_course hlast hnow (Nat.le_of_lt hj)
  | restore past saved _ ih =>
    intro heven
    rw [machine_restore]
    exact ih heven

/-- A program that calls a subroutine and jumps when it is back, and one that jumps to `0x203`. -/
theorem aligned_run_subroutine :
    let loaded := (start 500 .standard 0 []).ask
      (.load #[0x22, 0x04, 0x12, 0x02, 0x00, 0xEE]) trivial
    let h := loaded.ask (.run 3) trivial
    let m := ((start 500 .standard 0 []).ask (.load #[0x12, 0x03]) trivial).rig.machine
    let r' := (m.step []).machine.registers
    ((∀ m, h.StepsAt m → ∀ target, ¬ m.OddTarget target) ∧ h.rig.machine.registers.Aligned) ∧
      m.registers.Aligned ∧ m.OddTarget 0x203 ∧ r'.pc.toNat = 0x203 ∧ r'.EvenSlots := by
  intro loaded h m r'
  have heven : ∀ m, h.StepsAt m → ∀ target, ¬ m.OddTarget target := by
    rintro _ (⟨-, ⟨hkeeps, -⟩ | hload⟩ | ⟨j, hj, -, rfl⟩)
    · cases hkeeps
    · exact absurd hload (not_stepsAt_of_restarts rfl _)
    · obtain rfl | rfl | rfl : j = 0 ∨ j = 1 ∨ j = 2 := by
        change j < 3 at hj
        omega
      · have hi : (loaded.rig.course (.run 3) 0).machine.instruction? = some (.call 0x204) := by
          decide +kernel
        refine Machine.not_oddTarget_of_instruction hi ?_ (by simp)
        rintro nnn (h | h) <;> cases h
        decide
      · have hi : (loaded.rig.course (.run 3) 1).machine.instruction? = some .ret := by
          decide +kernel
        exact Machine.not_oddTarget_of_instruction hi (by simp) (by simp)
      · have hi : (loaded.rig.course (.run 3) 2).machine.instruction? = some (.jump 0x202) := by
          decide +kernel
        refine Machine.not_oddTarget_of_instruction hi ?_ (by simp)
        rintro nnn (h | h) <;> cases h
        decide
  obtain ⟨halways, hstep⟩ := aligned_run
  have haligned : m.registers.Aligned := Registers.aligned_start _
  have hpc : r'.pc.toNat = 0x203 := by decide +kernel
  obtain ⟨hslots, hnext⟩ := hstep m [] haligned
  have hodd : ¬ Even r'.pc.toNat := by
    rw [hpc]
    decide
  have htarget : m.OddTarget 0x203 := hpc ▸ hnext.resolve_left hodd
  exact ⟨⟨heven, (halways h heven).1⟩, haligned, htarget, hpc, hslots⟩

end History
end ChipEight
