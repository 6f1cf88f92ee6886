import ChipEight.Proofs.Reachable

/-!
# Waiting for a key

A program that waits for a key is parked in front of the instruction by which it waits. The first
step parks it and empties the latch, so that no earlier press counts; then steps do nothing at all
until there is a press, and the step after that takes the first press since. The mode and the word
at the program counter cannot get out of step with each other, although a program may write over
itself, because a parked program writes nothing (`Machine.kept_parked`).

No press serves two waits: what is taken in a run was pending in the latch when the run began or
has been pressed since, each press at most once and in order (`Rig.taken_log`).
-/

namespace ChipEight

namespace Machine

/-! ## One step -/

structure AtWait (m : Machine) (x : Reg) : Prop where
  fetchable : fetchable m.registers.pc = true
  instruction : m.instruction? = some (.awaitKey x)

/-- At an instruction that waits for a key, a step is that wait. -/
theorem AtWait.step {m : Machine} {x : Reg} (h : m.AtWait x) (entropy : List UInt8) :
    m.step entropy =
      let effect := m.recorded.awaitKey entropy x
      ⟨none, effect.machine, effect.entropy,
        .fetched m.registers.pc m.nextWord :: effect.events⟩ := by
  refine step_of_ok h.fetchable ?_
  rw [carryOut_of_some h.instruction]
  exact execute_awaitKey ..

/-- The machine once its program has begun to wait. -/
def park (m : Machine) : Machine :=
  { m with
    keypad := m.keypad.beginWait
    registers := { m.registers.record m.nextWord with mode := .awaitingKey } }

/-- The machine once its program has received a key in a register. -/
def receive (m : Machine) (x : Reg) (b : UInt8) : Machine :=
  { m with
    keypad := m.keypad.beginWait
    registers := ({ m.registers with mode := .running }.put x b).next }

/-- A key is received as if its wait had put it in the register at once. -/
theorem receive_park {m : Machine} (hmode : m.registers.mode = .running) (k : Keypad) (x : Reg)
    (b : UInt8) :
    receive { m.park with keypad := k } x b =
      { m with
        keypad := k.beginWait
        registers := ((m.registers.record m.nextWord).put x b).next } := by
  unfold receive
  rw [← hmode]
  rfl

/-- A program waits for a key, with the word by which it waits on record. -/
structure Parked (m : Machine) (x : Reg) : Prop extends m.AtWait x where
  mode : m.registers.mode = .awaitingKey
  recorded : m.recorded = m

theorem AtWait.step_of_running {m : Machine} {x : Reg} (h : m.AtWait x)
    (hmode : m.registers.mode = .running) (entropy : List UInt8) :
    m.step entropy =
      ⟨none, m.park, entropy, [.fetched m.registers.pc m.nextWord, .awaitingKey x]⟩ := by
  rw [h.step, awaitKey_of_running (m := m.recorded) hmode]
  rfl

theorem AtWait.step_of_none {m : Machine} {x : Reg} (h : m.AtWait x)
    (hmode : m.registers.mode = .awaitingKey) (hlatch : m.keypad.latch = none)
    (entropy : List UInt8) :
    m.step entropy = ⟨none, m.recorded, entropy, [.fetched m.registers.pc m.nextWord]⟩ := by
  rw [h.step, awaitKey_of_none (m := m.recorded) hmode hlatch]

/-- A step of a parked program takes the latched key and goes on. -/
theorem AtWait.step_of_some {m : Machine} {x : Reg} {key : Digit} (h : m.AtWait x)
    (hmode : m.registers.mode = .awaitingKey) (hlatch : m.keypad.latch = some key)
    (entropy : List UInt8) :
    m.step entropy =
      ⟨none, m.recorded.receive x (UInt8.ofNat key.val), entropy,
        [.fetched m.registers.pc m.nextWord, .keyTaken key x]⟩ := by
  rw [h.step, awaitKey_of_some (m := m.recorded) hmode hlatch]
  rfl

theorem AtWait.park {m : Machine} {x : Reg} (h : m.AtWait x) : m.park.Parked x :=
  ⟨⟨h.fetchable, h.instruction⟩, rfl, rfl⟩

namespace Parked

variable {m : Machine} {x : Reg} (h : m.Parked x)

include h

/-- Only the registers and memory decide whether a machine is parked. -/
theorem of_eq {m' : Machine} (hregisters : m'.registers = m.registers)
    (hmemory : m'.memory = m.memory) : m'.Parked x := by
  have hword : m'.nextWord = m.nextWord := by
    unfold nextWord
    rw [hregisters, hmemory]
  have hrecord : m.registers.record m.nextWord = m.registers :=
    congrArg Machine.registers h.recorded
  refine ⟨⟨?_, ?_⟩, ?_, ?_⟩
  · rw [hregisters]
    exact h.fetchable
  · unfold instruction?
    rw [hword]
    exact h.instruction
  · rw [hregisters]
    exact h.mode
  · unfold Machine.recorded
    rw [hword, hregisters, hrecord, ← hregisters]

theorem step_of_none (hlatch : m.keypad.latch = none) (entropy : List UInt8) :
    m.step entropy = ⟨none, m, entropy, [.fetched m.registers.pc m.nextWord]⟩ := by
  rw [h.toAtWait.step_of_none h.mode hlatch, h.recorded]

theorem step_of_some {key : Digit} (hlatch : m.keypad.latch = some key) (entropy : List UInt8) :
    m.step entropy =
      ⟨none, m.receive x (UInt8.ofNat key.val), entropy,
        [.fetched m.registers.pc m.nextWord, .keyTaken key x]⟩ := by
  rw [h.toAtWait.step_of_some h.mode hlatch, h.recorded]

end Parked

/-! ## Other steps -/

/-- The keys that programs received, as the reports have it. -/
def taken (events : List Event) : List Digit :=
  events.filterMap fun
    | .keyTaken key _ => some key
    | _ => none

theorem taken_append (l l' : List Event) : taken (l ++ l') = taken l ++ taken l' :=
  List.filterMap_append

/-- Only the instruction that waits for a key takes one. -/
theorem taken_execute {m : Machine} {entropy : List UInt8} {i : Instruction} {effect : Effect}
    (h : ∀ x, i ≠ .awaitKey x) (he : m.execute entropy i = .ok effect) :
    taken effect.events = [] := by
  have hreports := reports_execute he
  generalize effect.events = events at hreports
  cases hreports with
  | keyTaken key x => exact absurd rfl (h x)
  | _ => rfl

/-- A step that does not meet a wait has nothing to do with keys pressed. -/
theorem step_of_not_atWait {m : Machine} (entropy : List UInt8) (h : ∀ x, ¬ m.AtWait x) :
    (m.step entropy).machine.registers.mode = m.registers.mode ∧
      (m.step entropy).machine.keypad = m.keypad ∧ taken (m.step entropy).events = [] := by
  cases hf : fetchable m.registers.pc with
  | false =>
    rw [step_of_not_fetchable hf]
    exact ⟨rfl, rfl, rfl⟩
  | true =>
    have hne : ∀ i, m.instruction? = some i → ∀ x, i ≠ .awaitKey x :=
      fun i hi x he => h x ⟨hf, he ▸ hi⟩
    refine ⟨?_, ?_, ?_⟩
    · exact step_left (P := fun m' => m'.registers.mode = m.registers.mode) entropy rfl rfl
        fun i hi => mode_execute (hne i hi)
    · exact step_left (P := fun m' => m'.keypad = m.keypad) entropy rfl rfl
        fun i hi => keypad_execute (hne i hi)
    · rw [step_eq, if_pos hf]
      cases hc : m.carryOut entropy with
      | error broken => rfl
      | ok effect =>
        unfold carryOut at hc
        split at hc
        · next i hi => exact taken_execute (hne i hi) hc
        · cases hc
          rfl

/-! ## Parked machines -/

/-- A program that is waiting after a step is parked at the instruction that waits. -/
theorem step_parked {m : Machine} (entropy : List UInt8)
    (h : m.registers.mode = .awaitingKey → ∃ x, m.Parked x)
    (hmode : (m.step entropy).machine.registers.mode = .awaitingKey) :
    ∃ x, (m.step entropy).machine.Parked x := by
  by_cases hat : ∃ x, m.AtWait x
  · obtain ⟨x, hat⟩ := hat
    cases hm : m.registers.mode with
    | running =>
      rw [hat.step_of_running hm]
      exact ⟨x, hat.park⟩
    | awaitingKey =>
      obtain ⟨y, hp⟩ := h hm
      cases hlatch : m.keypad.latch with
      | none =>
        rw [hp.step_of_none hlatch]
        exact ⟨y, hp⟩
      | some key =>
        -- taking a key ends the wait
        rw [hp.step_of_some hlatch] at hmode
        cases hmode
  · obtain ⟨hstep, _, _⟩ := step_of_not_atWait entropy (not_exists.1 hat)
    obtain ⟨x, hp⟩ := h (hstep.symm.trans hmode)
    exact absurd ⟨x, hp.toAtWait⟩ hat

/-- Machines that wait for a key are parked where they do. -/
theorem kept_parked :
    Machine.Kept fun m => m.registers.mode = .awaitingKey → ∃ x, m.Parked x where
  fresh _ _ _ hmode := by cases hmode
  reset now program _ _ hmode := by
    rw [reset_fst] at hmode
    cases hmode
  keypad k h hmode := (h hmode).imp fun _ hp => hp.of_eq rfl rfl
  step entropy h hmode := step_parked entropy h hmode
  attach _ h hmode := (h hmode).imp fun _ hp => hp.of_eq rfl rfl
  advance _ h hmode := (h hmode).imp fun _ hp => hp.of_eq rfl rfl
  resetClock _ h hmode := (h hmode).imp fun _ hp => hp.of_eq rfl rfl
  tick _ h hmode := (h hmode).imp fun _ hp => hp.of_eq rfl rfl
  displayFrame h hmode := (h hmode).imp fun _ hp => hp.of_eq rfl rfl
  restore _ h hmode := (h hmode).imp fun _ hp => hp.of_eq rfl rfl

/-! ## What is pending -/

/-- The press that has been latched for a program that waits. -/
def pending (m : Machine) : List Digit :=
  match m.registers.mode with
  | .running => []
  | .awaitingKey => m.keypad.latch.toList

theorem pending_of_running {m : Machine} (h : m.registers.mode = .running) : m.pending = [] := by
  unfold pending
  rw [h]

theorem pending_of_latch {m : Machine} (h : m.keypad.latch = none) : m.pending = [] := by
  unfold pending
  rw [h]
  split <;> rfl

theorem pending_of_eq {m m' : Machine} (hmode : m'.registers.mode = m.registers.mode)
    (hlatch : m'.keypad.latch = m.keypad.latch) : m'.pending = m.pending := by
  unfold pending
  rw [hmode, hlatch]

/-- A reset takes no key and leaves none pending. -/
theorem taken_reset (m : Machine) (now : Reading) :
    taken (m.reset now).2 = [] ∧ (m.reset now).1.pending = [] := by
  refine ⟨?_, ?_⟩
  · unfold reset
    cases Memory.blank.install m.program <;> rfl
  · rw [reset_fst]
    exact pending_of_running rfl

/-- A machine that has been restored has no press pending. -/
theorem pending_of_restore {now : Reading} {bytes : List UInt8} {m : Machine}
    (h : restore now bytes = .ok m) : m.pending = [] := by
  unfold restore at h
  cases hread : Snapshot.format.read bytes with
  | error cause => rw [hread] at h; cases h
  | ok p =>
    rw [hread] at h
    cases h
    exact pending_of_latch rfl

/-- Of the presses in a wait only the first is latched. -/
theorem pending_press (m : Machine) (code : UInt8) :
    (m.press code).pending.Sublist (m.pending ++ [keyOf code]) := by
  unfold pending
  cases hmode : m.registers.mode with
  | running =>
    have hpressed : (m.press code).registers.mode = .running := hmode
    rw [hpressed]
    exact List.nil_sublist _
  | awaitingKey =>
    have hpressed : (m.press code).registers.mode = .awaitingKey := hmode
    rw [hpressed]
    unfold press Keypad.press
    cases m.keypad.latch with
    | none => exact .refl _
    | some key => exact List.sublist_append_left _ _

/-- What a step takes and leaves pending was pending before it. -/
theorem taken_step (m : Machine) (entropy : List UInt8) :
    (taken (m.step entropy).events ++ (m.step entropy).machine.pending).Sublist m.pending := by
  by_cases hat : ∃ x, m.AtWait x
  · obtain ⟨x, hat⟩ := hat
    cases hmode : m.registers.mode with
    | running =>
      rw [hat.step_of_running hmode, pending_of_latch (m := m.park) rfl]
      exact List.nil_sublist _
    | awaitingKey =>
      cases hlatch : m.keypad.latch with
      | none =>
        rw [hat.step_of_none hmode hlatch]
        exact .refl _
      | some key =>
        rw [hat.step_of_some hmode hlatch, pending_of_latch (m := m.recorded.receive ..) rfl]
        unfold pending
        rw [hmode, hlatch]
        exact .refl _
  · obtain ⟨hmode, hkeypad, htaken⟩ := step_of_not_atWait entropy (not_exists.1 hat)
    rw [htaken, pending_of_eq hmode (by rw [hkeypad])]
    exact .refl _

end Machine

open Machine (taken)

/-- Steps take a press that is pending at most once. -/
theorem Run.taken_steps (n : Nat) (r : Run) :
    (taken (r.steps n).events.toList ++ (r.steps n).machine.pending).Sublist
      (taken r.events.toList ++ r.machine.pending) := by
  induction n generalizing r with
  | zero => exact .refl _
  | succ n ih =>
    rw [steps_succ]
    split
    · exact .refl _
    · have hstep := (r.machine.taken_step r.entropy).append_left (taken r.events.toList)
      rw [← List.append_assoc, ← Machine.taken_append, ← events_step] at hstep
      exact (ih r.step).trans hstep

theorem Machine.taken_run (m : Machine) (entropy : List UInt8) (n : Nat) :
    (taken (m.run entropy n).events.toList ++ (m.run entropy n).machine.pending).Sublist
      m.pending :=
  Run.taken_steps n (.start m entropy)

/-! ## Presses -/

def Request.IsKey : Request → Prop
  | .press _ | .release _ | .pressBy .. | .releaseBy .. => True
  | _ => False

/-- Whether a request leaves the machine to itself, that is, hands it to no session. -/
def Request.IsDirect : Request → Prop
  | .drive .. => False
  | _ => True

theorem ofNat_keyOf (code : UInt8) : UInt8.ofNat (keyOf code).val = code % 16 := by
  have hval : (keyOf code).val = code.toNat % 16 := rfl
  have hsixteen : UInt8.toNat 16 = 16 := rfl
  rw [hval, ← UInt8.toNat_inj, UInt8.toNat_ofNat', UInt8.toNat_mod, hsixteen]
  omega

namespace Rig

/-- The code of the key that a request presses. A handle on a keypad that is not in use any more
presses nothing. -/
def pressed? (r : Rig) : Request → Option UInt8
  | .press code => some code
  | .pressBy handle code => if handle.keypad = r.keypad then some code else none
  | _ => none

def presses (r : Rig) : List Request → List UInt8
  | [] => []
  | q :: qs => (r.pressed? q).toList ++ (r.apply q).rig.presses qs

/-- A press by a handle makes at most its own key pending. -/
theorem pending_throughHandle_press (r : Rig) (handle : Handle) (code : UInt8) :
    (r.throughHandle handle (·.press code)).machine.pending.Sublist
      (r.machine.pending ++ (r.pressed? (.pressBy handle code)).toList.map keyOf) := by
  by_cases h : handle.keypad = r.keypad
  · simp only [throughHandle, pressed?, if_pos h]
    exact r.machine.pending_press code
  · simp only [throughHandle, pressed?, if_neg h]
    exact List.sublist_append_left _ _

theorem pending_throughHandle_release (r : Rig) (handle : Handle) (code : UInt8) :
    (r.throughHandle handle (·.release code)).machine.pending = r.machine.pending := by
  unfold throughHandle
  split
  · exact Machine.pending_of_eq rfl rfl
  · rfl

/-- What is taken during a request, and what is pending after it, was pending or is pressed. -/
theorem taken_apply (r : Rig) (q : Request) (hq : q.IsDirect) :
    (taken (r.apply q).events ++ (r.apply q).rig.machine.pending).Sublist
      (r.machine.pending ++ (r.pressed? q).toList.map keyOf) := by
  -- most requests press nothing, and many end whatever wait there is
  have quiet {l : List Digit} (h : l.Sublist r.machine.pending) :
      l.Sublist (r.machine.pending ++ []) := by rwa [List.append_nil]
  have nothing {m : Machine} (h : m.pending = []) :
      m.pending.Sublist (r.machine.pending ++ []) := h ▸ List.nil_sublist _
  cases q with
  | load program =>
    by_cases hle : program.size ≤ Memory.maxProgramSize
    · rw [r.apply_load_of_le hle]
      exact nothing (Machine.taken_reset { r.machine with program } r.now).2
    · rw [r.apply_load_of_lt (Nat.not_le.1 hle)]
      exact quiet (.refl _)
  | reset =>
    obtain ⟨htaken, hpending⟩ := r.machine.taken_reset r.now
    change (taken (r.machine.reset r.now).2 ++ _).Sublist _
    rw [htaken]
    exact nothing hpending
  | press code => exact r.machine.pending_press code
  | pressBy handle code => exact r.pending_throughHandle_press handle code
  | releaseBy handle code =>
    change ((r.throughHandle handle (·.release code)).machine.pending).Sublist _
    rw [pending_throughHandle_release]
    exact quiet (.refl _)
  | step => exact quiet (r.machine.taken_step r.entropy)
  | run n => exact quiet (r.machine.taken_run r.entropy n)
  | update => exact quiet (Machine.taken_run { r.machine with clock := _ } r.entropy _)
  | beginWait | takePress | releaseAll => exact nothing (Machine.pending_of_latch rfl)
  | restore bytes =>
    cases hread : Machine.restore r.now bytes with
    | ok m =>
      rw [r.apply_restore_of_ok hread]
      exact nothing (Machine.pending_of_restore hread)
    | error cause =>
      rw [r.apply_restore_of_error hread]
      exact quiet (.refl _)
  | drive maxSteps deltas recorder => exact hq.elim
  | _ => exact quiet (.refl _)

/-- What is taken in a run was pending when the run began or has been pressed since, no press
being taken twice. -/
theorem taken_log (r : Rig) {qs : List Request} (hqs : ∀ q ∈ qs, q.IsDirect) :
    (taken (r.log qs)).Sublist (r.machine.pending ++ (r.presses qs).map keyOf) := by
  induction qs generalizing r with
  | nil => exact List.nil_sublist _
  | cons q qs ih =>
    have hfirst := r.taken_apply q (hqs q List.mem_cons_self)
    have hrest := ih (r.apply q).rig fun p hp => hqs p (List.mem_cons_of_mem q hp)
    have htaken : taken (r.log (q :: qs)) =
        taken (r.apply q).events ++ taken ((r.apply q).rig.log qs) := Machine.taken_append ..
    have hpresses : (r.presses (q :: qs)).map keyOf =
        (r.pressed? q).toList.map keyOf ++ ((r.apply q).rig.presses qs).map keyOf :=
      List.map_append
    rw [htaken, hpresses]
    refine (hrest.append_left _).trans ?_
    rw [← List.append_assoc, ← List.append_assoc]
    exact hfirst.append_right _

/-! ## Waits that are interrupted by key events -/

def withKeypad (r : Rig) (k : Keypad) : Rig :=
  r.withMachine { r.machine with keypad := k }

/-- A key event changes the keypad and nothing else. The latch keeps the first press. -/
theorem apply_key (r : Rig) {q : Request} (hq : q.IsKey) :
    ∃ k, (r.apply q).rig = r.withKeypad k ∧
      k.latch = (r.machine.keypad.latch <|> (r.pressed? q).map keyOf) := by
  have hnone : r.machine.keypad.latch = (r.machine.keypad.latch <|> none) := by
    cases r.machine.keypad.latch <;> rfl
  cases q with
  | press code => exact ⟨_, rfl, rfl⟩
  | release code => exact ⟨_, rfl, hnone⟩
  | pressBy handle code =>
    by_cases h : handle.keypad = r.keypad
    · refine ⟨r.machine.keypad.press code, ?_, ?_⟩
      · exact if_pos h
      · simp only [pressed?, if_pos h]
        rfl
    · refine ⟨r.machine.keypad, ?_, ?_⟩
      · exact if_neg h
      · simp only [pressed?, if_neg h]
        exact hnone
  | releaseBy handle code =>
    by_cases h : handle.keypad = r.keypad
    · exact ⟨r.machine.keypad.release code, if_pos h, hnone⟩
    · exact ⟨r.machine.keypad, if_neg h, hnone⟩
  | _ => exact hq.elim

theorem apply_step_of_eq (r : Rig) {m : Machine} {entropy : List UInt8} {events : List Event}
    (h : r.machine.step r.entropy = ⟨none, m, entropy, events⟩) :
    r.apply .step = ⟨.done, { r with machine := m, entropy }, events⟩ := by
  unfold apply
  simp only [h]

theorem apply_step_of_none (r : Rig) {x : Reg} (hp : r.machine.Parked x)
    (hlatch : r.machine.keypad.latch = none) :
    (r.apply .step).reply = .done ∧ (r.apply .step).rig = r := by
  rw [r.apply_step_of_eq (hp.step_of_none hlatch r.entropy)]
  exact ⟨rfl, rfl⟩

theorem apply_step_of_some (r : Rig) {x : Reg} (hp : r.machine.Parked x) {code : UInt8}
    (hlatch : r.machine.keypad.latch = some (keyOf code)) :
    (r.apply .step).reply = .done ∧
      (r.apply .step).rig = r.withMachine (r.machine.receive x (code % 16)) := by
  rw [r.apply_step_of_eq (hp.step_of_some hlatch r.entropy), ofNat_keyOf]
  exact ⟨rfl, rfl⟩

/-- Once a press is latched, key events cannot dislodge it. -/
theorem after_of_some (r : Rig) {qs : List Request} (hqs : ∀ q ∈ qs, q.IsKey) {key : Digit}
    (hlatch : r.machine.keypad.latch = some key) :
    ∃ k, r.after qs = r.withKeypad k ∧ k.latch = some key := by
  induction qs generalizing r with
  | nil => exact ⟨_, rfl, hlatch⟩
  | cons q qs ih =>
    obtain ⟨k, hrig, hk⟩ := r.apply_key (hqs q List.mem_cons_self)
    rw [hlatch] at hk
    have hafter := ih (r.withKeypad k) (fun p hp => hqs p (List.mem_cons_of_mem q hp)) hk
    rw [← hrig] at hafter
    obtain ⟨k', hrig', hk'⟩ := hafter
    exact ⟨k', hrig'.trans (by rw [hrig]; rfl), hk'⟩

/-- As long as no key goes down, a parked rig stays as it is, but for the keys that come up. -/
theorem after_of_none (r : Rig) {x : Reg} (hp : r.machine.Parked x)
    (hlatch : r.machine.keypad.latch = none) {qs : List Request}
    (hqs : ∀ q ∈ qs, q = .step ∨ q.IsKey) (hnone : r.presses qs = []) :
    ∃ k, r.after qs = r.withKeypad k ∧ k.latch = none := by
  induction qs generalizing r with
  | nil => exact ⟨_, rfl, hlatch⟩
  | cons q qs ih =>
    obtain ⟨hq, hrest⟩ := List.append_eq_nil_iff.1 hnone
    have hqs' : ∀ p ∈ qs, p = .step ∨ p.IsKey := fun p hp => hqs p (List.mem_cons_of_mem q hp)
    obtain ⟨k, hrig, hk⟩ : ∃ k, (r.apply q).rig = r.withKeypad k ∧ k.latch = none := by
      obtain rfl | hkey := hqs q List.mem_cons_self
      · exact ⟨_, (r.apply_step_of_none hp hlatch).2, hlatch⟩
      · obtain ⟨k, hrig, hk⟩ := r.apply_key hkey
        have hpressed : r.pressed? q = none := Option.toList_eq_nil_iff.1 hq
        rw [hlatch, hpressed] at hk
        exact ⟨k, hrig, hk⟩
    rw [hrig] at hrest
    have hparked : (r.withKeypad k).machine.Parked x := hp.of_eq rfl rfl
    have hafter := ih (r.withKeypad k) hparked hk hqs' hrest
    rw [← hrig] at hafter
    obtain ⟨k', hrig', hk'⟩ := hafter
    exact ⟨k', hrig'.trans (by rw [hrig]; rfl), hk'⟩

theorem isKey_of_pressed? {r : Rig} {q : Request} {code : UInt8} (h : r.pressed? q = some code) :
    q.IsKey := by
  cases q with
  | press code => trivial
  | pressBy handle code => trivial
  | _ => cases h

/-- The first press is latched, whatever key events come after it. -/
theorem after_of_press (r : Rig) (hlatch : r.machine.keypad.latch = none) {q : Request}
    {code : UInt8} (hq : r.pressed? q = some code) {qs : List Request} (hqs : ∀ p ∈ qs, p.IsKey) :
    ∃ k, r.after (q :: qs) = r.withKeypad k ∧ k.latch = some (keyOf code) := by
  obtain ⟨k, hrig, hk⟩ := r.apply_key (isKey_of_pressed? hq)
  rw [hlatch, hq] at hk
  obtain ⟨k', hafter, hk'⟩ := (r.withKeypad k).after_of_some hqs hk
  rw [← hrig] at hafter
  exact ⟨k', hafter.trans (by rw [hrig]; rfl), hk'⟩

/-- **Waiting for a key.** A running program that comes to a wait is parked by the first step, and
the latch is emptied. However steps and key events follow each other, a step before the first press
since changes nothing at all, and the first step after it puts the key of that press in the
register and lets the program go on; earlier and later presses, and releases, do not matter. In any
run no press is taken twice. And a program that waits is always parked at an instruction that
waits. -/
theorem Reachable.key_wait {r : Rig} (h : r.Reachable) :
    (∀ x, r.machine.registers.mode = .running → r.machine.AtWait x →
      let word := r.machine.nextWord
      let parked := (r.apply .step).rig
      ((r.apply .step).reply = .done ∧
        parked.machine = { r.machine with
          keypad := r.machine.keypad.beginWait
          registers := { r.machine.registers.record word with mode := .awaitingKey } }) ∧
      ∀ qs, (∀ q ∈ qs, q = .step ∨ q.IsKey) → parked.presses qs = [] →
        let waiting := parked.after qs
        (waiting.machine = { parked.machine with keypad := waiting.machine.keypad } ∧
          (waiting.apply .step).reply = .done ∧ (waiting.apply .step).rig = waiting) ∧
        ∀ q code ks, waiting.pressed? q = some code → (∀ k ∈ ks, k.IsKey) →
          let pressed := waiting.after (q :: ks)
          (pressed.apply .step).reply = .done ∧
            (pressed.apply .step).rig.machine = { r.machine with
              keypad := pressed.machine.keypad.beginWait
              registers := ((r.machine.registers.record word).put x (code % 16)).next }) ∧
    (∀ qs, (∀ q ∈ qs, q.IsDirect) →
      (taken (r.log qs)).Sublist (r.machine.pending ++ (r.presses qs).map keyOf)) ∧
    (r.machine.registers.mode = .awaitingKey → ∃ x, r.machine.Parked x) := by
  refine ⟨fun x hmode hat => ?_, fun qs hqs => r.taken_log hqs, h.machine Machine.kept_parked⟩
  intro word parked
  have hstep := r.apply_step_of_eq (hat.step_of_running hmode r.entropy)
  have hparked : parked = r.withMachine r.machine.park := congrArg Response.rig hstep
  refine ⟨⟨congrArg Response.reply hstep, by rw [hparked]; rfl⟩, ?_⟩
  intro qs hqs hnone waiting
  have hpark : parked.machine.Parked x := by
    rw [hparked]
    exact hat.park
  have hempty : parked.machine.keypad.latch = none := by
    rw [hparked]
    rfl
  obtain ⟨k, hafter, hk⟩ := parked.after_of_none hpark hempty hqs hnone
  have hwaiting : waiting = parked.withKeypad k := hafter
  have hwait : waiting.machine.Parked x := by
    rw [hwaiting]
    exact hpark.of_eq rfl rfl
  have hlatch : waiting.machine.keypad.latch = none := by
    rw [hwaiting]
    exact hk
  refine ⟨⟨by rw [hwaiting]; rfl, waiting.apply_step_of_none hwait hlatch⟩, ?_⟩
  intro q code ks hq hks pressed
  obtain ⟨k', hafter', hk'⟩ := waiting.after_of_press hlatch hq hks
  have hpressed : pressed = r.withMachine { r.machine.park with keypad := k' } := by
    have hpressed : pressed = waiting.withKeypad k' := hafter'
    rw [hpressed, hwaiting, hparked]
    rfl
  have hpressing : pressed.machine.Parked x := by
    rw [hpressed]
    exact hat.park.of_eq rfl rfl
  have hcode : pressed.machine.keypad.latch = some (keyOf code) := by
    rw [hpressed]
    exact hk'
  obtain ⟨hreply, hrig⟩ := pressed.apply_step_of_some hpressing hcode
  refine ⟨hreply, ?_⟩
  rw [hrig, hpressed]
  exact Machine.receive_park hmode k' x _

/-- The key that is held when the wait begins is not taken, nor is the one pressed last. -/
theorem Reachable.key_wait_five :
    let r := (Rig.start 500 .standard 0 []).after [.load #[0xF3, 0x0A], .press 7]
    let parked := (r.apply .step).rig
    let waiting := parked.after [.step, .release 7]
    let pressed := waiting.after [.press 0x25, .release 5, .press 9]
    r.Reachable ∧ r.machine.registers.mode = .running ∧ r.machine.AtWait 3 ∧
      parked.presses [.step, .release 7] = [] ∧ waiting.pressed? (.press 0x25) = some 0x25 ∧
      (pressed.apply .step).rig.machine.registers =
        ((r.machine.registers.record r.machine.nextWord).put 3 5).next := by
  intro r parked waiting pressed
  have h : r.Reachable := Rig.Reachable.after (.start ..) (by simp [Request.IsPlain])
  have hmode : r.machine.registers.mode = .running := by decide +kernel
  have hat : r.machine.AtWait 3 := ⟨by decide +kernel, by decide +kernel⟩
  have hnone : parked.presses [.step, .release 7] = [] := by decide +kernel
  obtain ⟨_, hwait⟩ := h.key_wait.1 3 hmode hat
  obtain ⟨_, hpress⟩ := hwait [.step, .release 7] (by simp [Request.IsKey]) hnone
  obtain ⟨_, hmachine⟩ := hpress (.press 0x25) 0x25 [.release 5, .press 9] rfl
    (by simp [Request.IsKey])
  exact ⟨h, hmode, hat, hnone, rfl, congrArg Machine.registers hmachine⟩

end Rig
end ChipEight
