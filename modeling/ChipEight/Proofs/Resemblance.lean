import ChipEight.Proofs.Lockstep

/-!
# Machines that differ in their panels

The panel of a machine is its screen and its keypad. Of two machines that agree on all else, the
panels may still differ where it does not show. For the screens that is left open: any relation
will do under which redrawing and packing agree (`Screen.Lockstep`). The keypads hold the same
keys, and they have latched the same key at least while the program waits for one, because taking
it is the only use a program has for the latch. Such machines are in lockstep
(`Machine.resembles_lockstep`).
-/

namespace ChipEight

/-- Related screens show the same pixels and frames and stay related. -/
structure Screen.Lockstep (S : Screen → Screen → Prop) : Prop where
  grid : ∀ {s s' : Screen}, S s s' → s'.grid = s.grid
  redraw : ∀ {s s' : Screen} (grid : Grid), S s s' →
    S { s with grid, dirty := true } { s' with grid, dirty := true }
  refresh : ∀ {s s' : Screen}, S s s' →
    s'.refresh.packed = s.refresh.packed ∧ S s.refresh s'.refresh

/-- A sprite does the same to any screen that shows the same. -/
theorem Screen.drawSprite_of_grid {s s' : Screen} (h : s'.grid = s.grid) (x y : UInt64)
    (rows : List UInt8) :
    s'.drawSprite x y rows =
      ({ s' with grid := (s.drawSprite x y rows).1.grid, dirty := true },
        (s.drawSprite x y rows).2) := by
  unfold drawSprite invert
  rw [h]

theorem Keypad.isHeld_congr {k k' : Keypad} (h : k'.held = k.held) (code : UInt8) :
    k'.isHeld code = k.isHeld code := by
  unfold isHeld
  rw [h]

namespace Machine

def withPanel (m : Machine) (s : Screen) (k : Keypad) : Machine :=
  { m with screen := s, keypad := k }

/-- The machines differ at most in their panels, whose screens are related, whose keys are the same
and whose latches are the same in the modes in which they are watched. -/
structure Resembles (S : Screen → Screen → Prop) (Watched : Mode → Prop) (m m' : Machine) :
    Prop where
  rest : m' = m.withPanel m'.screen m'.keypad
  screen : S m.screen m'.screen
  held : m'.keypad.held = m.keypad.held
  latch : Watched m.registers.mode → m'.keypad.latch = m.keypad.latch

variable {S : Screen → Screen → Prop} {Watched : Mode → Prop}

theorem Resembles.refl (hS : ∀ s, S s s) (m : Machine) : m.Resembles S Watched m :=
  ⟨rfl, hS m.screen, rfl, fun _ => rfl⟩

/-- Machines whose latches are watched at all times have the same keypad. -/
theorem Resembles.keypad {m m' : Machine} (h : m.Resembles S (fun _ => True) m') :
    m'.keypad = m.keypad :=
  calc m'.keypad = ⟨m'.keypad.held, m'.keypad.latch⟩ := rfl
    _ = m.keypad := by rw [h.held, h.latch trivial]

/-! ## Steps -/

section Steps

variable (hS : Screen.Lockstep S) (hwatched : Watched .awaitingKey) {m : Machine} {s : Screen}
  {k : Keypad} (hs : S m.screen s) (hheld : k.held = m.keypad.held)
  (hlatch : Watched m.registers.mode → k.latch = m.keypad.latch)

include hs hheld hlatch

include hwatched in
/-- Waiting for a key comes to the same on another panel, as the latch is watched while a program
waits. -/
theorem awaitKey_withPanel (entropy : List UInt8) (x : Reg) :
    Effect.Alike (Resembles S Watched) (.ok (m.awaitKey entropy x))
      (.ok ((m.withPanel s k).awaitKey entropy x)) := by
  obtain ⟨hmode, he⟩ | ⟨hmode, hnone, he⟩ | ⟨hmode, key, hsome, he⟩ := m.awaitKey_cases entropy x
  · -- both begin to wait, and whatever was latched before is gone
    rw [he, awaitKey_of_running (m := m.withPanel s k) hmode]
    exact .ok ⟨rfl, hs, hheld, fun _ => rfl⟩
  · have hk : k.latch = none := (hlatch (hmode ▸ hwatched)).trans hnone
    rw [he, awaitKey_of_none (m := m.withPanel s k) hmode hk]
    exact .ok ⟨rfl, hs, hheld, hlatch⟩
  · have hk : k.latch = some key := (hlatch (hmode ▸ hwatched)).trans hsome
    rw [he, awaitKey_of_some (m := m.withPanel s k) hmode hk]
    exact .ok ⟨rfl, hs, hheld, fun _ => rfl⟩

include hS in
/-- A sprite is drawn alike on another panel. -/
theorem drawSprite_withPanel (x y : Reg) (n : Digit) :
    (m.drawSprite x y n).Resembles S Watched ((m.withPanel s k).drawSprite x y n) := by
  have hdraw := Screen.drawSprite_of_grid (hS.grid hs) (m.registers.get x % 64).toUInt64
    (m.registers.get y % 32).toUInt64 (m.memory.block m.registers.i.toNat n.val)
  unfold drawSprite withPanel
  simp only [hdraw]
  exact ⟨rfl, hS.redraw _ hs, hheld, hlatch⟩

include hS hwatched in
/-- Every instruction comes to the same on another panel. Those that neither draw nor wait only
carry the screen and the keypad along. -/
theorem execute_withPanel (entropy : List UInt8) (i : Instruction) :
    Effect.Alike (Resembles S Watched) (m.execute entropy i)
      ((m.withPanel s k).execute entropy i) := by
  have hregisters : (m.withPanel s k).registers = m.registers := rfl
  have hkeys : ∀ code, (m.withPanel s k).keypad.isHeld code = m.keypad.isHeld code :=
    Keypad.isHeld_congr hheld
  cases i with
  | clearScreen => exact .ok ⟨rfl, hS.redraw .dark hs, hheld, hlatch⟩
  | ret =>
    simp only [execute, hregisters]
    split
    · exact .ok ⟨rfl, hs, hheld, hlatch⟩
    · next hsp =>
      obtain ⟨_, _, _, hr⟩ | ⟨_, hr⟩ := m.registers.ret_cases hsp <;> rw [hr]
      · exact .ok ⟨rfl, hs, hheld, hlatch⟩
      · exact .error ⟨rfl, hs, hheld, hlatch⟩
  | call nnn =>
    simp only [execute, hregisters]
    split
    · exact .ok ⟨rfl, hs, hheld, hlatch⟩
    · obtain ⟨_, hr⟩ | ⟨_, hr⟩ := m.registers.call_cases (UInt64.ofNat nnn.val) <;> rw [hr]
      · exact .ok ⟨rfl, hs, hheld, hlatch⟩
      · exact .error ⟨rfl, hs, hheld, hlatch⟩
  | alu op x y =>
    have hmode := m.registers.mode_putFlagged x
      (op.eval m.registers.dialect (m.registers.get x) (m.registers.get y))
    exact .ok ⟨rfl, hs, hheld, fun hw => hlatch (hmode ▸ hw)⟩
  | draw x y n => exact .ok (drawSprite_withPanel hS hs hheld hlatch x y n)
  | skipIfHeld x =>
    simp only [execute, hregisters, hkeys]
    exact .ok ⟨rfl, hs, hheld, hlatch⟩
  | skipUnlessHeld x =>
    simp only [execute, hregisters, hkeys]
    exact .ok ⟨rfl, hs, hheld, hlatch⟩
  | awaitKey x =>
    rw [execute_awaitKey, execute_awaitKey]
    exact awaitKey_withPanel hwatched hs hheld hlatch entropy x
  | storeRegisters x =>
    have hmode := m.registers.mode_advanceIndex (x.val + 1)
    exact .ok ⟨rfl, hs, hheld, fun hw => hlatch (hmode ▸ hw)⟩
  | loadRegisters x =>
    have hmode := (m.registers.putUpTo x fun j =>
      m.memory.read (m.registers.i.toNat + j)).mode_advanceIndex (x.val + 1)
    exact .ok ⟨rfl, hs, hheld, fun hw => hlatch (hmode ▸ hw)⟩
  | _ => exact .ok ⟨rfl, hs, hheld, hlatch⟩

include hS hwatched in
/-- Whatever is fetched comes to the same on another panel. -/
theorem carryOut_withPanel (entropy : List UInt8) :
    Effect.Alike (Resembles S Watched) (m.carryOut entropy)
      ((m.withPanel s k).carryOut entropy) := by
  have hi : (m.withPanel s k).instruction? = m.instruction? := rfl
  unfold carryOut
  rw [hi]
  split
  · exact execute_withPanel (m := m.recorded) hS hwatched hs hheld hlatch entropy _
  · exact .ok ⟨rfl, hs, hheld, hlatch⟩

end Steps

/-! ## Everything else that can happen -/

/-- Machines that resemble each other are in lockstep, if the latch is watched at least while the
program waits for a key. -/
theorem resembles_lockstep (hS : Screen.Lockstep S) (hwatched : Watched .awaitingKey) :
    Machine.Lockstep (Resembles S Watched) where
  clock h := by rw [h.rest]; rfl
  memory h := by rw [h.rest]; rfl
  isHeld code h := Keypad.isHeld_congr h.held code
  withClock c h := by
    refine ⟨?_, h.screen, h.held, h.latch⟩
    rw [h.rest]
    rfl
  withProgram program _ h := by
    refine ⟨?_, h.screen, h.held, h.latch⟩
    rw [h.rest]
    rfl
  reset {m m'} now h := by
    obtain ⟨hrest, hs, hheld, hlatch⟩ := h
    generalize m'.screen = s, m'.keypad = k at hrest hs hheld hlatch
    subst hrest
    rw [reset_fst, reset_fst, reset_snd, reset_snd]
    exact ⟨⟨rfl, hS.redraw .dark hs, rfl, fun _ => rfl⟩, rfl⟩
  press code h := by
    refine ⟨?_, h.screen, ?_, ?_⟩
    · rw [h.rest]
      rfl
    · simp only [press, Keypad.press, h.held]
    · intro hw
      simp only [press, Keypad.press, h.latch hw]
  release code h := by
    refine ⟨?_, h.screen, ?_, h.latch⟩
    · rw [h.rest]
      rfl
    · simp only [release, Keypad.release, h.held]
  beginWait h := by
    refine ⟨?_, h.screen, h.held, fun _ => rfl⟩
    rw [h.rest]
    rfl
  releaseAll h := by
    refine ⟨?_, h.screen, rfl, fun _ => rfl⟩
    rw [h.rest]
    rfl
  displayFrame h := by
    obtain ⟨hpacked, hscreen⟩ := hS.refresh h.screen
    refine ⟨hpacked, ?_, hscreen, h.held, h.latch⟩
    rw [h.rest]
    rfl
  step {m m'} entropy h := by
    obtain ⟨hrest, hs, hheld, hlatch⟩ := h
    generalize m'.screen = s, m'.keypad = k at hrest hs hheld hlatch
    subst hrest
    exact step_alike ⟨rfl, hs, hheld, hlatch⟩ rfl rfl
      (carryOut_withPanel hS hwatched hs hheld hlatch entropy)

end Machine
end ChipEight
