import ChipEight.Proofs.Footprint
import ChipEight.Proofs.Sprites

/-!
# Drawing

A program draws a sprite from memory by `Dxyn`: the bytes at the index are its rows, and two
registers tell where it goes. Three things wrap on the way, the columns and the rows of the screen
and the addresses of the bytes, and `Machine.PutsBitOn` has them all. As a program draws at most
fifteen rows, no pixel is inverted twice, and the flag register tells whether the sprite has met a
lit pixel of the screen as it was (`Machine.draw_inverts`).
-/

namespace ChipEight

theorem Memory.length_block (m : Memory) (a n : Nat) : (m.block a n).length = n := by
  rw [block, List.length_map, List.length_range]

theorem Memory.getD_block (m : Memory) (a : Nat) {n r : Nat} (h : r < n) :
    (m.block a n).getD r 0 = m.read (a + r) := by
  simp [block, h]

namespace Machine

variable {m : Machine} {x y : Reg} {n : Digit}

/-- Whether one of the bits that `Dxyn` takes from memory is set and falls on a pixel. -/
def PutsBitOn (m : Machine) (x y : Reg) (n : Digit) (px py : UInt64) : Prop :=
  ∃ r < n.val, ∃ b < 8,
    (m.memory.read ((m.registers.i.toNat + r) % 4096)).toNat.testBit (7 - b) = true ∧
      px.toNat % 64 = ((m.registers.get x).toNat % 64 + b) % 64 ∧
      py.toNat % 32 = ((m.registers.get y).toNat % 32 + r) % 32

/-- What `Dxyn` makes of a machine. -/
structure Draws (m : Machine) (x y : Reg) (n : Digit) (m' : Machine) : Prop where
  inverted : ∀ px py, m.PutsBitOn x y n px py → m'.screen.pixel px py = !m.screen.pixel px py
  kept : ∀ px py, ¬ m.PutsBitOn x y n px py → m'.screen.pixel px py = m.screen.pixel px py
  hit : (∃ px py, m.PutsBitOn x y n px py ∧ m.screen.pixel px py = true) →
    m'.registers.get .flag = 1
  missed : (¬ ∃ px py, m.PutsBitOn x y n px py ∧ m.screen.pixel px py = true) →
    m'.registers.get .flag = 0
  dirty : m'.screen.dirty = true
  pc : m'.registers.pc = m.registers.pc + 2
  memory : m'.memory = m.memory
  index : m'.registers.i = m.registers.i
  registers : ∀ z, z ≠ .flag → m'.registers.get z = m.registers.get z

/-- Where the bits of the sprite fall on the screen. -/
theorem covers_block_iff {px py : UInt64} :
    Sprite.Covers (m.registers.get x % 64).toUInt64 (m.registers.get y % 32).toUInt64
        (m.memory.block m.registers.i.toNat n.val) px py ↔
      m.PutsBitOn x y n px py := by
  have hx : (m.registers.get x % 64).toUInt64.toNat = (m.registers.get x).toNat % 64 :=
    (UInt8.toNat_toUInt64 _).trans (UInt8.toNat_mod _ _)
  have hy : (m.registers.get y % 32).toUInt64.toNat = (m.registers.get y).toNat % 32 :=
    (UInt8.toNat_toUInt64 _).trans (UInt8.toNat_mod _ _)
  unfold Sprite.Covers PutsBitOn
  rw [Memory.length_block]
  refine exists_congr fun r => and_congr_right fun hr => exists_congr fun b =>
    and_congr_right fun hb => ?_
  have hbyte : (m.memory.block m.registers.i.toNat n.val).getD r 0 =
      m.memory.read ((m.registers.i.toNat + r) % 4096) :=
    (m.memory.getD_block _ hr).trans (m.memory.read_congr (Nat.mod_mod _ _).symm)
  have hcolumn : ((m.registers.get x % 64).toUInt64 + UInt64.ofNat b) % 64 = px % 64 ↔
      px.toNat % 64 = ((m.registers.get x).toNat % 64 + b) % 64 := by
    rw [← UInt64.toNat_inj, Cell.toNat_add_ofNat_mod _ _ (by decide), hx, UInt64.toNat_mod, eq_comm]
    rfl
  have hrow : ((m.registers.get y % 32).toUInt64 + UInt64.ofNat r) % 32 = py % 32 ↔
      py.toNat % 32 = ((m.registers.get y).toNat % 32 + r) % 32 := by
    rw [← UInt64.toNat_inj, Cell.toNat_add_ofNat_mod _ _ (by decide), hy, UInt64.toNat_mod, eq_comm]
    rfl
  rw [Sprite.lands, hbyte, Bool.and_eq_true, Bool.and_eq_true, beq_iff_eq, beq_iff_eq, hcolumn,
    hrow, and_assoc]

theorem Fetches.step_draw (h : m.Fetches (.draw x y n)) (entropy : List UInt8) :
    m.step entropy =
      ⟨none, m.recorded.drawSprite x y n, entropy, [.fetched m.registers.pc m.nextWord]⟩ :=
  step_of_ok h.fetchable (carryOut_of_some h.instruction? entropy)

/-- A program draws fewer rows than the screen has. -/
theorem length_block_le (m : Machine) (n : Digit) :
    (m.memory.block m.registers.i.toNat n.val).length ≤ 32 := by
  rw [Memory.length_block]
  omega

/-- A sprite inverts the pixels under its set bits and leaves all others, whatever wraps. -/
theorem draws_drawSprite (m : Machine) (x y : Reg) (n : Digit) :
    m.Draws x y n (m.recorded.drawSprite x y n) := by
  -- where the sprite goes is read before the flag is put
  let column := (m.registers.get x % 64).toUInt64
  let row := (m.registers.get y % 32).toUInt64
  let rows := m.memory.block m.registers.i.toNat n.val
  have hrows : rows.length ≤ 32 := m.length_block_le n
  have hpixel (px py : UInt64) : (m.recorded.drawSprite x y n).screen.pixel px py =
      (m.screen.pixel px py ^^ decide (Odd (Sprite.landings column row rows px py))) :=
    Screen.pixel_drawSprite ..
  have hbits (px py : UInt64) :
      Odd (Sprite.landings column row rows px py) ↔ m.PutsBitOn x y n px py :=
    (Sprite.odd_landings_iff hrows).trans covers_block_iff
  have hflag : (m.recorded.drawSprite x y n).registers.get .flag =
      if (m.screen.drawSprite column row rows).2 then 1 else 0 :=
    (Registers.get_put ..).trans (if_pos rfl)
  have hhit : (m.screen.drawSprite column row rows).2 = true ↔
      ∃ px py, m.PutsBitOn x y n px py ∧ m.screen.pixel px py = true := by
    simp only [Screen.hit_drawSprite_iff hrows, column, row, rows, covers_block_iff]
  refine ⟨?_, ?_, ?_, ?_, rfl, rfl, rfl, rfl, ?_⟩
  · intro px py hbit
    rw [hpixel, decide_eq_true ((hbits px py).2 hbit), Bool.xor_true]
  · intro px py hbit
    rw [hpixel, decide_eq_false (mt (hbits px py).1 hbit), Bool.xor_false]
  · intro hmeets
    rw [hflag, if_pos (hhit.2 hmeets)]
  · intro hmeets
    rw [hflag, if_neg (mt hhit.1 hmeets)]
  · exact fun z hz => Registers.get_put_of_ne _ hz _

/-- **Drawing.** A machine that comes to `Dxyn` inverts the pixels that the bits of its sprite fall
on, and no others. The flag tells whether one of them was lit before, also where a coordinate comes
from the flag register itself. The program goes on with the next word, and memory, the index and the
other registers are as they were. -/
theorem draw_inverts (h : m.Fetches (.draw x y n)) (entropy : List UInt8) :
    (m.step entropy).fault = none ∧ m.Draws x y n (m.step entropy).machine := by
  rw [h.step_draw]
  exact ⟨rfl, m.draws_drawSprite x y n⟩

/-- The sprite begins in the last byte of memory and goes on with the font, reaches over the right
edge of the screen, and takes its row from the flag register. Drawn a second time it meets itself. -/
theorem draw_inverts_twice :
    let m := ((Rig.start 500 .standard 0 []).after
      [.load #[0x6E, 0x3E, 0xAF, 0xFF, 0xDE, 0xF2, 0xDE, 0xF2], .run 3]).machine
    let o := m.step []
    m.Fetches (.draw 14 15 2) ∧ o.fault = none ∧ m.Draws 14 15 2 o.machine ∧
      o.machine.registers.get .flag = 1 := by
  intro m o
  have h : m.Fetches (.draw 14 15 2) := ⟨by decide +kernel, by decide +kernel⟩
  exact ⟨h, (draw_inverts h []).1, (draw_inverts h []).2, by decide +kernel⟩

end Machine
end ChipEight
