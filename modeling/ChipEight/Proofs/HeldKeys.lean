import ChipEight.Proofs.Footprint
import ChipEight.Proofs.History
import ChipEight.Proofs.KeyWait

/-!
# Which keys are held

Keys are pressed and released by the machine and by handles, in any order and by codes of which only
the lowest four bits count. A history tells what has been done to the keys since they were last all
released, which loading and resetting do (`History.keyEvents`), and a key is held if the last of the
events that concern it is a press. Programs only read the keys, to skip an instruction, and take what
is latched, which is never anything but the key of one of these presses (`History.keypad_law`).
-/

namespace ChipEight

/-! ## Key events -/

inductive KeyEvent where
  | press (code : UInt8)
  | release (code : UInt8)
  deriving Repr, DecidableEq

namespace KeyEvent

def code : KeyEvent → UInt8
  | press code | release code => code

/-- The event concerns the key that a code names. -/
def Concerns (e : KeyEvent) (code : UInt8) : Prop :=
  e.code.toNat % 16 = code.toNat % 16

instance (e : KeyEvent) (code : UInt8) : Decidable (e.Concerns code) :=
  inferInstanceAs (Decidable (_ = _))

/-- The last event that concerns the key of a code is a press. -/
def LastIsPress (events : List KeyEvent) (code : UInt8) : Prop :=
  ∃ pressed, (events.filter (·.Concerns code)).getLast? = some (press pressed)

variable {events : List KeyEvent} {code : UInt8}

theorem not_lastIsPress_nil : ¬ LastIsPress [] code := by
  rintro ⟨pressed, h⟩
  cases h

/-- Whether the last event that concerns a key is a press, when one more has happened. -/
theorem lastIsPress_append {e : KeyEvent} :
    LastIsPress (events ++ [e]) code ↔
      if e.Concerns code then e = press e.code else LastIsPress events code := by
  unfold LastIsPress
  by_cases h : e.Concerns code
  · have hlast : ((events ++ [e]).filter (·.Concerns code)).getLast? = some e := by
      simp [List.filter_append, h]
    rw [hlast, if_pos h]
    constructor
    · rintro ⟨pressed, he⟩
      cases he
      rfl
    · intro he
      exact ⟨e.code, congrArg some he⟩
  · have hsame : (events ++ [e]).filter (·.Concerns code) = events.filter (·.Concerns code) := by
      simp [List.filter_append, h]
    rw [hsame, if_neg h]

end KeyEvent

namespace Keypad

/-- What an event does to a keypad. -/
def act (k : Keypad) : KeyEvent → Keypad
  | .press code => k.press code
  | .release code => k.release code

theorem keyOf_eq_iff {a b : UInt8} : keyOf a = keyOf b ↔ a.toNat % 16 = b.toNat % 16 := by
  simp only [keyOf, Fin.ext_iff, Digit.val_lowest]

theorem isHeld_mod (k : Keypad) (code : UInt8) : k.isHeld (code % 16) = k.isHeld code := by
  have hkey : keyOf (code % 16) = keyOf code := by
    have hsixteen : UInt8.toNat 16 = 16 := rfl
    rw [keyOf_eq_iff, UInt8.toNat_mod, hsixteen, Nat.mod_mod]
  simp only [isHeld, hkey]

/-- An event decides about the key that it concerns and about no other. -/
theorem isHeld_act (k : Keypad) (e : KeyEvent) (code : UInt8) :
    (k.act e).isHeld code = if e.Concerns code then decide (e = .press e.code) else k.isHeld code := by
  cases e with
  | press pressed =>
    simp only [act, isHeld_press, keyOf_eq_iff, KeyEvent.Concerns, KeyEvent.code, decide_true]
  | release released =>
    simp only [act, isHeld_release, keyOf_eq_iff, KeyEvent.Concerns, KeyEvent.code, reduceCtorEq,
      decide_false]

/-- What is latched after an event was latched before, or is the key that it presses. -/
theorem latch_act {k : Keypad} {e : KeyEvent} {key : Digit} (h : (k.act e).latch = some key) :
    k.latch = some key ∨ ∃ code, e = .press code ∧ key = keyOf code := by
  cases e with
  | press code =>
    change (k.latch <|> some (keyOf code)) = some key at h
    cases hlatch : k.latch with
    | none =>
      rw [hlatch] at h
      cases h
      exact .inr ⟨code, rfl, rfl⟩
    | some first =>
      rw [hlatch] at h
      exact .inl h
  | release code => exact .inl h

/-- The keypads are the same, or the latch of the second has been emptied. -/
def MayEmpty (k k' : Keypad) : Prop :=
  k' = k ∨ k' = k.beginWait

theorem MayEmpty.trans {k k' k'' : Keypad} (h : k.MayEmpty k') (h' : k'.MayEmpty k'') :
    k.MayEmpty k'' := by
  obtain rfl | rfl := h
  · exact h'
  · obtain rfl | rfl := h'
    · exact .inr rfl
    · exact .inr rfl

theorem MayEmpty.isHeld {k k' : Keypad} (h : k.MayEmpty k') (code : UInt8) :
    k'.isHeld code = k.isHeld code := by
  obtain rfl | rfl := h <;> rfl

theorem MayEmpty.latch {k k' : Keypad} {key : Digit} (h : k.MayEmpty k')
    (hlatch : k'.latch = some key) : k.latch = some key := by
  obtain rfl | rfl := h
  · exact hlatch
  · cases hlatch

end Keypad

/-! ## Steps -/

namespace Machine

/-- All that a program can do to the keypad is to empty the latch. -/
theorem keypad_step (m : Machine) (entropy : List UInt8) :
    m.keypad.MayEmpty (m.step entropy).machine.keypad := by
  by_cases hat : ∃ x, m.AtWait x
  · obtain ⟨x, hat⟩ := hat
    rw [hat.step]
    obtain ⟨_, he⟩ | ⟨_, _, he⟩ | ⟨_, _, _, he⟩ := m.recorded.awaitKey_cases entropy x <;> rw [he]
    · exact .inr rfl
    · exact .inl rfl
    · exact .inr rfl
  · exact .inl (step_of_not_atWait entropy (not_exists.1 hat)).2.1

theorem keypad_run (m : Machine) (entropy : List UInt8) (n : Nat) :
    m.keypad.MayEmpty (m.run entropy n).machine.keypad :=
  Run.steps_machine (P := fun m' => m.keypad.MayEmpty m'.keypad)
    (fun m' entropy' h => h.trans (m'.keypad_step entropy')) n (.inl rfl)

/-- An instruction that does nothing but skip goes on two or four bytes further. -/
theorem Fetches.step_skipIf {m : Machine} {i : Instruction} {entropy : List UInt8}
    (condition : Bool) (h : m.Fetches i)
    (he : m.recorded.execute entropy i =
      .ok (.ofRegisters m.recorded entropy (m.recorded.registers.skipIf condition))) :
    (m.step entropy).fault = none ∧ (m.step entropy).machine.registers.pc.toNat =
      m.registers.pc.toNat + if condition then 4 else 2 := by
  have hpc := (fetchable_iff.1 h.fetchable).2
  rw [step_of_ok h.fetchable ((carryOut_of_some h.instruction? entropy).trans he)]
  refine ⟨rfl, ?_⟩
  change (if condition then m.registers.pc + 4 else m.registers.pc + 2).toNat = _
  have htwo : UInt64.toNat 2 = 2 := rfl
  have hfour : UInt64.toNat 4 = 4 := rfl
  split <;> rw [UInt64.toNat_add] <;> omega

end Machine

/-! ## Requests -/

/-- Whether a request releases all keys. -/
def Request.releasesKeys : Request → Bool
  | .releaseAll => true
  | q => q.restarts

namespace Rig

/-- What a request does to the keys one by one. A handle on a keypad that is not in use does
nothing. -/
def keyEvent? (r : Rig) : Request → Option KeyEvent
  | .press code => some (.press code)
  | .release code => some (.release code)
  | .pressBy handle code => if handle.keypad = r.keypad then some (.press code) else none
  | .releaseBy handle code => if handle.keypad = r.keypad then some (.release code) else none
  | _ => none

theorem keypad_throughHandle (r : Rig) (handle : Handle) (e : KeyEvent) :
    (r.throughHandle handle (·.act e)).machine.keypad =
      ((if handle.keypad = r.keypad then some e else none).elim r.machine.keypad
        r.machine.keypad.act) := by
  unfold throughHandle
  split <;> rfl

/-- A request that releases all keys leaves an idle keypad. -/
theorem keypad_apply_of_releases (r : Rig) {q : Request} (h : q.releasesKeys = true) :
    (r.apply q).rig.machine.keypad = .idle := by
  by_cases hq : q = .releaseAll
  · rw [hq]
    rfl
  · have hrestarts : q.restarts = true := by
      cases q with
      | releaseAll => exact absurd rfl hq
      | _ => exact h
    obtain ⟨program, hrig⟩ := r.apply_of_restarts hrestarts
    rw [hrig]
    exact congrArg Machine.keypad (Machine.reset_fst _ _)

/-- Other requests do to the keypad what they say, and may empty the latch. -/
theorem keypad_apply (r : Rig) {q : Request} (hq : q.IsPlain) (h : q.releasesKeys = false) :
    ((r.keyEvent? q).elim r.machine.keypad r.machine.keypad.act).MayEmpty
      (r.apply q).rig.machine.keypad := by
  cases q with
  | load program =>
    rw [r.apply_load_of_lt (Nat.not_le.1 (of_decide_eq_false h))]
    exact .inl rfl
  | reset | releaseAll => cases h
  | pressBy handle code => exact .inl (r.keypad_throughHandle handle (.press code))
  | releaseBy handle code => exact .inl (r.keypad_throughHandle handle (.release code))
  | step => exact r.machine.keypad_step r.entropy
  | run n => exact r.machine.keypad_run r.entropy n
  | update => exact Machine.keypad_run { r.machine with clock := _ } r.entropy _
  | beginWait | takePress => exact .inr rfl
  | restore bytes | drive maxSteps deltas recorder => exact hq.elim
  | _ => exact .inl rfl

/-- Of all requests only a restore replaces the keypad. -/
theorem keypad_number_apply (r : Rig) {q : Request} (hq : q.IsPlain) :
    (r.apply q).rig.keypad = r.keypad := by
  cases q with
  | load program =>
    by_cases hle : program.size ≤ Memory.maxProgramSize
    · rw [r.apply_load_of_le hle]
      rfl
    · rw [r.apply_load_of_lt (Nat.not_le.1 hle)]
      rfl
  | pressBy handle code | releaseBy handle code =>
    change (r.throughHandle handle _).keypad = _
    unfold throughHandle
    split <;> rfl
  | restore bytes | drive maxSteps deltas recorder => exact hq.elim
  | _ => rfl

/-- The handle of a rig stays the same as long as nothing is restored. -/
theorem handle_after (r : Rig) {qs : List Request} (hqs : ∀ q ∈ qs, q.IsPlain) :
    (r.after qs).handle = r.handle := by
  induction qs generalizing r with
  | nil => rfl
  | cons q qs ih =>
    have hrest := ih (r.apply q).rig fun p hp => hqs p (List.mem_cons_of_mem q hp)
    have hfirst : (r.apply q).rig.handle = r.handle :=
      congrArg Handle.mk (r.keypad_number_apply (hqs q List.mem_cons_self))
    exact hrest.trans hfirst

/-- A handle on the keypad in use does what the machine does. -/
theorem apply_by_handle (r : Rig) (code : UInt8) :
    r.apply (.pressBy r.handle code) = r.apply (.press code) ∧
      r.apply (.releaseBy r.handle code) = r.apply (.release code) := by
  have hsame (change : Keypad → Keypad) : r.throughHandle r.handle change =
      r.withMachine { r.machine with keypad := change r.machine.keypad } := if_pos rfl
  unfold apply
  simp only [hsame]
  exact ⟨rfl, rfl⟩

end Rig

/-! ## Histories -/

namespace History

/-- What has been done to the keys since all of them were released. -/
def keyEvents : History → List KeyEvent
  | start .. => []
  | feed past _ => past.keyEvents
  | ask past q _ =>
    if q.releasesKeys then [] else past.keyEvents ++ (past.rig.keyEvent? q).toList
  | restore _ _ => []

/-- A keypad on which these events have happened. -/
structure Shows (k : Keypad) (events : List KeyEvent) : Prop where
  isHeld : ∀ code, k.isHeld code = true ↔ KeyEvent.LastIsPress events code
  latch : ∀ key, k.latch = some key → ∃ code, .press code ∈ events ∧ key = keyOf code

theorem shows_idle : Shows .idle [] where
  isHeld code := by
    rw [Keypad.isHeld_idle]
    exact iff_of_false Bool.false_ne_true KeyEvent.not_lastIsPress_nil
  latch key h := by cases h

theorem Shows.mayEmpty {k k' : Keypad} {events : List KeyEvent} (h : Shows k events)
    (hk : k.MayEmpty k') : Shows k' events where
  isHeld code := by
    rw [hk.isHeld]
    exact h.isHeld code
  latch key hlatch := h.latch key (hk.latch hlatch)

/-- An event happens to a keypad as it happens to its past. -/
theorem Shows.act {k : Keypad} {events : List KeyEvent} (h : Shows k events) (e : KeyEvent) :
    Shows (k.act e) (events ++ [e]) where
  isHeld code := by
    rw [k.isHeld_act, KeyEvent.lastIsPress_append]
    split
    · exact decide_eq_true_iff
    · exact h.isHeld code
  latch key hlatch := by
    obtain hlatch | ⟨code, rfl, hkey⟩ := Keypad.latch_act hlatch
    · obtain ⟨code, hmem, hkey⟩ := h.latch key hlatch
      exact ⟨code, List.mem_append_left _ hmem, hkey⟩
    · exact ⟨code, List.mem_append_right _ List.mem_cons_self, hkey⟩

/-- The keypad of a rig shows what has been done to its keys. -/
theorem shows_keyEvents (h : History) : Shows h.rig.machine.keypad h.keyEvents := by
  induction h with
  | start rate dialect now entropy => exact shows_idle
  | feed past entropy ih => exact ih
  | ask past q hq ih =>
    unfold rig keyEvents
    cases hreleases : q.releasesKeys with
    | true =>
      rw [past.rig.keypad_apply_of_releases hreleases]
      exact shows_idle
    | false =>
      refine Shows.mayEmpty ?_ (past.rig.keypad_apply hq hreleases)
      cases past.rig.keyEvent? q with
      | none => simpa using ih
      | some e => exact ih.act e
  | restore past saved _ _ =>
    rw [machine_restore]
    exact shows_idle

/-- A press reports nothing, so what is taken during a request was latched before it. -/
theorem latch_of_mem_taken {r : Rig} {q : Request} (hq : q.IsPlain) {key : Digit}
    (h : key ∈ Machine.taken (r.apply q).events) : r.machine.keypad.latch = some key := by
  have hpending : key ∈ r.machine.pending := by
    cases hpressed : r.pressed? q with
    | none =>
      have hdirect : q.IsDirect := by
        cases q with
        | drive maxSteps deltas recorder => exact hq.elim
        | _ => trivial
      have hsublist := r.taken_apply q hdirect
      rw [hpressed] at hsublist
      simpa using hsublist.subset (List.mem_append_left _ h)
    | some code =>
      cases q with
      | press code => cases h
      | pressBy handle code => cases h
      | _ => cases hpressed
  unfold Machine.pending at hpending
  split at hpending
  · cases hpending
  · exact Option.mem_toList.1 hpending

/-- **Held keys.** Whatever a rig has been through, a key is held if the last event that concerns it,
since all keys were released by a load or a reset, was a press. No step moves a key; `Ex9E` skips if
the key is held that the register names, and `ExA1` if it is not. The handles of the rig go on acting
on its keys like the machine itself, loads and resets notwithstanding. What is taken from the latch,
be it by the host or by a program, is the key of a press since. -/
theorem keypad_law :
    (∀ (h : History) (code : UInt8),
      h.rig.machine.keypad.isHeld code = true ↔ KeyEvent.LastIsPress h.keyEvents code) ∧
    (∀ (m : Machine) (entropy : List UInt8),
      let m' := (m.step entropy).machine
      m'.keypad.held = m.keypad.held ∧
      ∀ x, let held := m.keypad.isHeld (m.registers.get x % 16)
        (m.Fetches (.skipIfHeld x) → (m.step entropy).fault = none ∧
          m'.registers.pc.toNat = m.registers.pc.toNat + if held then 4 else 2) ∧
        (m.Fetches (.skipUnlessHeld x) → (m.step entropy).fault = none ∧
          m'.registers.pc.toNat = m.registers.pc.toNat + if held then 2 else 4)) ∧
    (∀ (h : History) (qs : List Request), (∀ q ∈ qs, q.IsPlain) → ∀ code,
      let later := h.rig.after qs
      later.apply (.pressBy h.rig.handle code) = later.apply (.press code) ∧
        later.apply (.releaseBy h.rig.handle code) = later.apply (.release code)) ∧
    ∀ (h : History) (key : Digit),
      ((h.rig.apply .takePress).reply = .key (some key) ∨
        ∃ q : Request, q.IsPlain ∧ key ∈ Machine.taken (h.rig.apply q).events) →
      key.val < 16 ∧ ∃ code, .press code ∈ h.keyEvents ∧ key.val = code.toNat % 16 := by
  refine ⟨fun h => h.shows_keyEvents.isHeld, ?_, ?_, ?_⟩
  · intro m entropy m'
    refine ⟨m.held_step entropy, ?_⟩
    intro x held
    have hheld : held = m.keypad.isHeld (m.registers.get x) := m.keypad.isHeld_mod _
    constructor
    · intro hi
      rw [hheld]
      exact hi.step_skipIf _ rfl
    · intro hi
      obtain ⟨hfault, hpc⟩ := hi.step_skipIf (!m.keypad.isHeld (m.registers.get x)) rfl
      refine ⟨hfault, hpc.trans ?_⟩
      rw [hheld]
      cases m.keypad.isHeld (m.registers.get x) <;> rfl
  · intro h qs hqs code later
    have hhandle : h.rig.handle = later.handle := (h.rig.handle_after hqs).symm
    rw [hhandle]
    exact later.apply_by_handle code
  · intro h key htaken
    refine ⟨key.isLt, ?_⟩
    have hlatch : h.rig.machine.keypad.latch = some key := by
      obtain hreply | ⟨q, hq, hmem⟩ := htaken
      · exact Reply.key.inj hreply
      · exact latch_of_mem_taken hq hmem
    obtain ⟨code, hmem, rfl⟩ := h.shows_keyEvents.latch key hlatch
    exact ⟨code, hmem, rfl⟩

/-- The key 3 goes down by the code `0x13` and stays down when another one comes up. -/
theorem keypad_law_skip :
    let loaded := (start 500 .standard 0 []).ask (.load #[0x61, 0x43, 0xE1, 0x9E]) trivial
    let pressed := (loaded.ask (.press 0x13) trivial).ask (.pressBy loaded.rig.handle 0xF2) trivial
    let h := (pressed.ask (.release 0x22) trivial).ask .step trivial
    let m := h.rig.machine
    (h.keyEvents = [.press 0x13, .press 0xF2, .release 0x22] ∧
      KeyEvent.LastIsPress h.keyEvents 3 ∧ m.keypad.isHeld 3 = true) ∧
    (m.Fetches (.skipIfHeld 1) ∧ (m.step []).fault = none ∧
      (m.step []).machine.registers.pc.toNat = m.registers.pc.toNat + 4) ∧
    (Request.IsPlain .reset ∧ (h.rig.after [.reset]).apply (.pressBy h.rig.handle 7) =
      (h.rig.after [.reset]).apply (.press 7)) ∧
    (h.rig.apply .takePress).reply = .key (some 3) ∧
      ∃ code, .press code ∈ h.keyEvents ∧ 3 = code.toNat % 16 := by
  intro loaded pressed h m
  obtain ⟨hheld, hsteps, hhandles, htaken⟩ := keypad_law
  have hevents : h.keyEvents = [.press 0x13, .press 0xF2, .release 0x22] := by decide +kernel
  have hlast : KeyEvent.LastIsPress h.keyEvents 3 := by
    rw [hevents]
    exact ⟨0x13, by decide⟩
  have hthree : m.keypad.isHeld 3 = true := (hheld h 3).2 hlast
  have hfetches : m.Fetches (.skipIfHeld 1) := ⟨by decide +kernel, by decide +kernel⟩
  obtain ⟨hfault, hpc⟩ := ((hsteps m []).2 1).1 hfetches
  have hregister : m.registers.get 1 % 16 = 3 := by decide +kernel
  rw [hregister, hthree] at hpc
  have hreset : ∀ q ∈ [Request.reset], q.IsPlain := by simp [Request.IsPlain]
  have hlatch : m.keypad.latch = some 3 := by decide +kernel
  have hreply : (h.rig.apply .takePress).reply = .key (some 3) := congrArg Reply.key hlatch
  exact ⟨⟨hevents, hlast, hthree⟩, ⟨hfetches, hfault, hpc⟩,
    ⟨trivial, (hhandles h [.reset] hreset 7).1⟩, hreply, (htaken h 3 (.inl hreply)).2⟩

end History
end ChipEight
