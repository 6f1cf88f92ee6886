import ChipEight.Proofs.Resemblance

/-!
# A restored machine goes on as the saved one

Saving leaves out the keys that are held, the latch, the last time reading and the number of frames
packed. If no key is held, no press is waiting to be taken and the clock is up to date, nothing of
this is ever missed: the restored machine and the saved one are in lockstep from then on, and differ
at most in the number of frames packed and in what is latched while nobody waits for a key
(`Rig.Reachable.restore_transparent`).
-/

namespace ChipEight

/-- The screens differ at most in how often they were packed. -/
def Screen.SameButCount (s s' : Screen) : Prop :=
  s' = { s with packCount := s'.packCount }

theorem Screen.SameButCount.refl (s : Screen) : s.SameButCount s :=
  rfl

/-- Screens that differ in how often they were packed stay so. -/
theorem Screen.sameButCount_lockstep : Screen.Lockstep SameButCount where
  grid h := by rw [h]
  redraw {s s'} grid h := by
    unfold SameButCount at *
    rw [h]
  refresh {s s'} h := by
    unfold SameButCount at *
    generalize s'.packCount = count at h
    subst h
    unfold refresh
    split
    · exact ⟨rfl, rfl⟩
    · exact ⟨rfl, rfl⟩

/-- A keypad on which no key is held holds the keys as an idle one does. -/
theorem Keypad.held_eq_of_not_isHeld {k : Keypad} (h : ∀ code, k.isHeld code = false) :
    k.held = idle.held := by
  refine Vector.ext fun i hi => ?_
  have hcode : (keyOf (UInt8.ofNat i)).val = i := by
    have hval : (keyOf (UInt8.ofNat i)).val = (UInt8.ofNat i).toNat % 16 := rfl
    rw [hval, UInt8.toNat_ofNat']
    omega
  have hheld := h (UInt8.ofNat i)
  simp only [isHeld, Fin.getElem_fin, hcode] at hheld
  simp [idle, hheld]

namespace Machine

/-- The machines differ at most in how often their screens were packed, and in what is latched
while nobody waits for a key. -/
abbrev SameButHidden : Machine → Machine → Prop :=
  Resembles Screen.SameButCount (· = .awaitingKey)

theorem sameButHidden_lockstep : Machine.Lockstep SameButHidden :=
  resembles_lockstep Screen.sameButCount_lockstep rfl

/-- Machines are the same but for what is hidden if they differ at most in how often the screen was
packed and, while no program waits, in the latch. -/
theorem sameButHidden_iff {m m' : Machine} :
    m.SameButHidden m' ↔
      m' = { m with
        screen := { m.screen with packCount := m'.screen.packCount }
        keypad := { m.keypad with latch := m'.keypad.latch } } ∧
      (m.registers.mode = .awaitingKey → m'.keypad.latch = m.keypad.latch) := by
  constructor
  · rintro ⟨hrest, hscreen, hheld, hlatch⟩
    refine ⟨?_, hlatch⟩
    have hkeypad : m'.keypad = { m.keypad with latch := m'.keypad.latch } := by
      simp only [← hheld]
    rw [← hkeypad]
    exact hrest.trans (by rw [hscreen]; rfl)
  · rintro ⟨hrest, hlatch⟩
    refine ⟨?_, ?_, ?_, hlatch⟩
    · rw [hrest]
      rfl
    · rw [hrest]
      rfl
    · rw [hrest]

theorem SameButHidden.save_eq {m m' : Machine} (h : m.SameButHidden m') : m'.save = m.save := by
  obtain ⟨hrest, -⟩ := sameButHidden_iff.1 h
  rw [hrest]
  rfl

end Machine

namespace Rig

/-- Rigs whose machines differ only in what is hidden answer all requests alike, but for the one
that takes what is latched. -/
theorem Alike.apply_sameButHidden {d : Nat} {r r' : Rig} (q : Request) (hq : q ≠ .takePress)
    (h : r.Alike Machine.SameButHidden d r') :
    (r.apply q).Alike Machine.SameButHidden d (r'.apply (q.shift d)) := by
  cases q with
  | takePress => exact absurd rfl hq
  | save => exact ⟨congrArg Reply.state h.machine.save_eq, rfl, h⟩
  | restore bytes => exact h.restore fun m _ => .refl .refl m
  | _ => exact Machine.sameButHidden_lockstep.apply h _ trivial

/-- A restored machine differs from the saved one only in what is hidden. -/
theorem sameButHidden_restored {r : Rig} (hheld : ∀ code, r.machine.keypad.isHeld code = false)
    (hlatch : r.machine.registers.mode = .running ∨ r.machine.keypad.latch = none)
    (hcur : r.Current) : r.machine.SameButHidden (r.machine.snapshot.machine r.now) := by
  have hclock : { r.machine.clock with lastReading := r.now } = r.machine.clock := by rw [← hcur]
  refine ⟨?_, rfl, (Keypad.held_eq_of_not_isHeld hheld).symm, fun hwaits => ?_⟩
  · calc r.machine.snapshot.machine r.now
        = { r.machine with
            clock := { r.machine.clock with lastReading := r.now }
            screen := { r.machine.screen with packCount := 0 }
            keypad := .idle } := rfl
      _ = r.machine.withPanel { r.machine.screen with packCount := 0 } .idle := by
        rw [hclock]
        rfl
  · obtain hrunning | hnone := hlatch
    · rw [hrunning] at hwaits
      cases hwaits
    · exact hnone.symm

/-- **Saving does not show.** Let no key be held and no press wait to be taken, and let the clock
be up to date. Then the machine that is restored from the saved bytes answers all that is asked of
it later as the saved machine would have, and reports the same. At any time the two differ at most
in the number of frames packed and, while nobody waits for a key, in what is latched. -/
theorem Reachable.restore_transparent {r : Rig} (h : r.Reachable)
    (hheld : ∀ code, r.machine.keypad.isHeld code = false)
    (hlatch : r.machine.registers.mode = .running ∨ r.machine.keypad.latch = none)
    (hcur : r.Current) :
    let restoring := r.apply (.restore r.machine.save)
    restoring.reply = .done ∧
    ∀ qs, .takePress ∉ qs →
      let qs' := qs.map (·.shift 1)
      restoring.rig.replies qs' = r.replies qs ∧ restoring.rig.log qs' = r.log qs ∧
      let last := r.after qs
      let last' := restoring.rig.after qs'
      last'.now = last.now ∧ last'.entropy = last.entropy ∧
      last'.machine = { last.machine with
        screen := { last.machine.screen with packCount := last'.machine.screen.packCount }
        keypad := { last.machine.keypad with latch := last'.machine.keypad.latch } } ∧
      (last.machine.registers.mode = .awaitingKey →
        last'.machine.keypad.latch = last.machine.keypad.latch) := by
  intro restoring
  have hrestoring : restoring =
      { r with machine := r.machine.snapshot.machine r.now, keypad := r.keypad + 1 }.quiet .done :=
    r.apply_restore_save h.program_fits
  rw [hrestoring]
  refine ⟨rfl, ?_⟩
  intro qs hqs qs'
  have halike : r.Alike Machine.SameButHidden 1
      { r with machine := r.machine.snapshot.machine r.now, keypad := r.keypad + 1 } :=
    ⟨sameButHidden_restored hheld hlatch hcur, rfl, rfl, rfl⟩
  obtain ⟨hreplies, hlog, hlast⟩ := halike.after (C := (· ≠ .takePress))
    Alike.apply_sameButHidden fun q hq he => hqs (he ▸ hq)
  exact ⟨hreplies, hlog, hlast.now, hlast.entropy, Machine.sameButHidden_iff.1 hlast.machine⟩

/-- When the state is saved, a press is latched that the later wait must not see, and the frame was
packed before the sprite was drawn. -/
theorem Reachable.restore_transparent_stale :
    let r := (Rig.start 500 .standard 0 []).after
      [.load #[0xA0, 0x00, 0xD0, 0x15, 0xF2, 0x0A], .press 3, .release 3, .displayFrame, .run 2]
    let qs := [.displayFrame, .run 2, .pressBy r.handle 7, .step, .wait 5000000, .update]
    let restored := (r.apply (.restore r.machine.save)).rig
    r.Reachable ∧ (∀ code, r.machine.keypad.isHeld code = false) ∧
      r.machine.registers.mode = .running ∧ r.machine.keypad.latch = some 3 ∧ r.Current ∧
      restored.replies (qs.map (·.shift 1)) = r.replies qs ∧
      restored.log (qs.map (·.shift 1)) = r.log qs := by
  intro r qs restored
  have h : r.Reachable := Rig.Reachable.after (.start ..) (by simp [Request.IsPlain])
  have hheld : ∀ code, r.machine.keypad.isHeld code = false := by
    have hidle : r.machine.keypad.held = Keypad.idle.held := by decide +kernel
    intro code
    rw [Keypad.isHeld_congr hidle, Keypad.isHeld_idle]
  have hmode : r.machine.registers.mode = .running := by decide +kernel
  have hlatch : r.machine.keypad.latch = some 3 := by decide +kernel
  have hcur : r.Current := by
    unfold Rig.Current
    decide +kernel
  obtain ⟨-, hlater⟩ := h.restore_transparent hheld (.inl hmode) hcur
  obtain ⟨hreplies, hlog, -⟩ := hlater qs (by simp [qs])
  exact ⟨h, hheld, hmode, hlatch, hcur, hreplies, hlog⟩

end Rig
end ChipEight
