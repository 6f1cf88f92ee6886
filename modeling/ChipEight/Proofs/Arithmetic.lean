import ChipEight.Proofs.Footprint

/-!
# Register arithmetic

Registers hold bytes, and what does not fit goes to the flag register. `Alu.Law` says in whole
numbers how the value and the flag of an operation are tied to its operands, so that nothing is
lost between the two. The operands are what the registers hold before the step. It does not matter
which registers they are: where the destination is the flag register itself, the flag is what stays
(`Machine.register_arithmetic`).
-/

namespace ChipEight

/-- How the value and the flag of an operation come from the old `Vx` and `Vy` and from the one of
them that is shifted, all as whole numbers. -/
def Alu.Law (a b shifted value flag : Nat) : Alu → Prop
  | copy => value = b
  | or => value = a ||| b ∧ flag = 0
  | and => value = a &&& b ∧ flag = 0
  | xor => value = a ^^^ b ∧ flag = 0
  | add => value + 256 * flag = a + b
  | sub => (value : Int) = a - b + 256 * (1 - flag) ∧ (flag = 1 ↔ b ≤ a)
  | shiftRight => 2 * value + flag = shifted
  | subFrom => (value : Int) = b - a + 256 * (1 - flag) ∧ (flag = 1 ↔ a ≤ b)
  | shiftLeft => value + 256 * flag = 2 * shifted

/-! ## Bytes -/

/-- A sum is its byte and its carry. -/
theorem toNat_add_carry (a b : UInt8) :
    (a + b).toNat + 256 * (if a.toNat + b.toNat < 256 then 0 else 1 : UInt8).toNat =
      a.toNat + b.toNat := by
  have ha := a.toNat_lt
  have hb := b.toNat_lt
  rw [UInt8.toNat_add]
  by_cases h : a.toNat + b.toNat < 256
  · rw [if_pos h, UInt8.toNat_zero]
    omega
  · rw [if_neg h, UInt8.toNat_one]
    omega

/-- A difference is its byte less what was borrowed, and nothing is borrowed from a number that is
large enough. -/
theorem toNat_sub_borrow (a b : UInt8) :
    ((a - b).toNat : Int) =
        a.toNat - b.toNat + 256 * (1 - (if b ≤ a then 1 else 0 : UInt8).toNat) ∧
      ((if b ≤ a then 1 else 0 : UInt8).toNat = 1 ↔ b.toNat ≤ a.toNat) := by
  have ha := a.toNat_lt
  have hb := b.toNat_lt
  by_cases h : b ≤ a
  · have hle : b.toNat ≤ a.toNat := UInt8.le_iff_toNat_le.1 h
    rw [if_pos h, UInt8.toNat_one, UInt8.toNat_sub_of_le _ _ h]
    omega
  · have hlt : ¬ b.toNat ≤ a.toNat := mt UInt8.le_iff_toNat_le.2 h
    rw [if_neg h, UInt8.toNat_zero, UInt8.toNat_sub]
    omega

/-- Halving keeps all but the lowest bit. -/
theorem two_mul_half_add_lowest (s : UInt8) : 2 * (s / 2).toNat + (s % 2).toNat = s.toNat := by
  rw [UInt8.toNat_div, UInt8.toNat_mod]
  exact Nat.div_add_mod s.toNat 2

theorem toNat_highest (s : UInt8) : (s / 128).toNat = s.toNat / 128 :=
  UInt8.toNat_div s 128

/-- Doubling keeps all but the highest bit. -/
theorem double_add_highest (s : UInt8) : (s * 2).toNat + 256 * (s / 128).toNat = 2 * s.toNat := by
  have hs := s.toNat_lt
  have htwo : UInt8.toNat 2 = 2 := rfl
  rw [UInt8.toNat_mul, toNat_highest, htwo]
  omega

/-- Every operation but copying computes a value and a flag of one bit, and by its law. -/
theorem Alu.exists_eval {op : Alu} (h : op ≠ .copy) (d : Dialect) (a b : UInt8) :
    ∃ value flag, op.eval d a b = (value, some flag) ∧ flag.toNat ≤ 1 ∧
      op.Law a.toNat b.toNat (if d.shiftsY then b else a).toNat value.toNat flag.toNat := by
  have hbit {c : Prop} [Decidable c] : (if c then 1 else 0 : UInt8).toNat ≤ 1 := by
    split <;> decide
  cases op with
  | copy => exact absurd rfl h
  | or => exact ⟨_, _, rfl, by decide, UInt8.toNat_or a b, rfl⟩
  | and => exact ⟨_, _, rfl, by decide, UInt8.toNat_and a b, rfl⟩
  | xor => exact ⟨_, _, rfl, by decide, UInt8.toNat_xor a b, rfl⟩
  | add =>
    refine ⟨_, _, rfl, ?_, toNat_add_carry a b⟩
    split <;> decide
  | sub => exact ⟨_, _, rfl, hbit, toNat_sub_borrow a b⟩
  | subFrom => exact ⟨_, _, rfl, hbit, toNat_sub_borrow b a⟩
  | shiftRight =>
    refine ⟨_, _, rfl, ?_, two_mul_half_add_lowest _⟩
    rw [UInt8.toNat_mod]
    exact Nat.le_of_lt_succ (Nat.mod_lt _ Nat.zero_lt_two)
  | shiftLeft =>
    refine ⟨_, _, rfl, ?_, double_add_highest _⟩
    rw [toNat_highest]
    exact Nat.le_of_lt_succ (Nat.div_lt_of_lt_mul (UInt8.toNat_lt _))

/-! ## Registers -/

namespace Registers

/-- A value was put in a register, and no other register has changed. -/
structure Gets (r r' : Registers) (x : Reg) (value : UInt8) : Prop where
  value : r'.get x = value
  rest : ∀ z, z ≠ x → r'.get z = r.get z

/-- A value was put in a register and after it the flag in the flag register, and no other register
has changed. -/
structure GetsFlagged (r r' : Registers) (x : Reg) (value flag : UInt8) : Prop where
  flag : r'.get .flag = flag
  value : x ≠ .flag → r'.get x = value
  rest : ∀ z, z ≠ x → z ≠ .flag → r'.get z = r.get z

variable (r : Registers) (word : UInt16) (x : Reg)

theorem gets_put (value : UInt8) : r.Gets ((r.record word).put x value).next x value where
  value := by rw [get_next, get_put, if_pos rfl]
  rest _ h := get_put_of_ne _ h value

theorem getsFlagged_putFlagged (value flag : UInt8) :
    r.GetsFlagged ((r.record word).putFlagged x (value, some flag)).next x value flag where
  flag := by rw [get_next, putFlagged, get_put, if_pos rfl]
  value h := by rw [get_next, putFlagged, get_put_of_ne _ h, get_put, if_pos rfl]
  rest z hx hflag := (get_put_of_ne _ hflag flag).trans (get_put_of_ne _ hx value)

end Registers

/-! ## Steps -/

namespace Machine

/-- **Arithmetic.** A machine that comes to `8xy_` leaves the value and the flag that the law of the
operation asks for, computed from what its registers held before. The flag is put last, so it stays
where the flag register is also the destination. Copying and adding a byte have no flag. No other
register changes. -/
theorem register_arithmetic (m : Machine) (entropy : List UInt8) :
    let r := m.registers
    let r' := (m.step entropy).machine.registers
    (∀ op x y, op ≠ .copy → m.Fetches (.alu op x y) →
      ∃ value flag : UInt8, flag.toNat ≤ 1 ∧
        op.Law (r.get x).toNat (r.get y).toNat
          (if r.dialect.shiftsY then r.get y else r.get x).toNat value.toNat flag.toNat ∧
        r.GetsFlagged r' x value flag) ∧
    (∀ x y, m.Fetches (.alu .copy x y) → r.Gets r' x (r.get y)) ∧
    ∀ x nn, m.Fetches (.addByte x nn) →
      ∃ value : UInt8, value.toNat = ((r.get x).toNat + nn.toNat) % 256 ∧ r.Gets r' x value := by
  intro r r'
  refine ⟨?_, ?_, ?_⟩
  · intro op x y hop h
    obtain ⟨value, flag, heval, hbit, hlaw⟩ := Alu.exists_eval hop r.dialect (r.get x) (r.get y)
    have hr' : r' = ((r.record m.nextWord).putFlagged x
        (op.eval r.dialect (r.get x) (r.get y))).next :=
      congrArg Machine.registers (h.machine_step entropy)
    refine ⟨value, flag, hbit, hlaw, ?_⟩
    rw [hr', heval]
    exact r.getsFlagged_putFlagged _ x value flag
  · intro x y h
    have hr' : r' = ((r.record m.nextWord).put x (r.get y)).next :=
      congrArg Machine.registers (h.machine_step entropy)
    rw [hr']
    exact r.gets_put _ x _
  · intro x nn h
    have hr' : r' = ((r.record m.nextWord).put x (r.get x + nn)).next :=
      congrArg Machine.registers (h.machine_step entropy)
    refine ⟨r.get x + nn, UInt8.toNat_add _ _, ?_⟩
    rw [hr']
    exact r.gets_put _ x _

/-- The flag register is doubled, and then added to and copied. -/
theorem register_arithmetic_flag :
    let r := (Rig.start 500 .standard 0 []).after
      [.load #[0x6F, 0xC8, 0x8F, 0xF4, 0x7F, 0x06, 0x82, 0xF0], .run 1]
    let m := r.machine
    let m' := (m.step []).machine
    let m'' := (m'.step []).machine
    (m.Fetches (.alu .add 15 15) ∧
      ∃ value flag : UInt8, flag.toNat ≤ 1 ∧ value.toNat + 256 * flag.toNat = 200 + 200 ∧
        m.registers.GetsFlagged m'.registers 15 value flag) ∧
    (m'.Fetches (.addByte 15 0x06) ∧
      ∃ value : UInt8, value.toNat = (1 + 6) % 256 ∧ m'.registers.Gets m''.registers 15 value) ∧
    m''.Fetches (.alu .copy 2 15) ∧
      m''.registers.Gets (m''.step []).machine.registers 2 7 := by
  intro r m m' m''
  have h : m.Fetches (.alu .add 15 15) := ⟨by decide +kernel, by decide +kernel⟩
  have h' : m'.Fetches (.addByte 15 0x06) := ⟨by decide +kernel, by decide +kernel⟩
  have h'' : m''.Fetches (.alu .copy 2 15) := ⟨by decide +kernel, by decide +kernel⟩
  have hm : m.registers.get 15 = 200 := by decide +kernel
  have hm' : m'.registers.get 15 = 1 := by decide +kernel
  have hm'' : m''.registers.get 15 = 7 := by decide +kernel
  obtain ⟨value, flag, hbit, hlaw, hgets⟩ := (m.register_arithmetic []).1 .add 15 15 nofun h
  obtain ⟨value', hvalue', hgets'⟩ := (m'.register_arithmetic []).2.2 15 0x06 h'
  have hgets'' := (m''.register_arithmetic []).2.1 2 15 h''
  rw [hm] at hlaw
  rw [hm'] at hvalue'
  rw [hm''] at hgets''
  exact ⟨⟨h, value, flag, hbit, hlaw, hgets⟩, ⟨h', value', hvalue', hgets'⟩, h'', hgets''⟩

end Machine
end ChipEight
