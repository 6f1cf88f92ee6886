import ChipEight.Instruction.Word

/-!
# Words and instructions

The word of an instruction is the only word that is read as it. Main statement:
`Instruction.ofWord?_eq_some_iff`. The proof takes words apart into their four digits, which an
operand of a byte or an address spans.
-/

namespace ChipEight

theorem Alu.ofDigit?_digit (op : Alu) : Alu.ofDigit? op.digit = some op := by
  cases op <;> rfl

theorem Alu.digit_lt (op : Alu) : op.digit < 16 := by
  cases op <;> decide

theorem Alu.digit_of_ofDigit? {n : Nat} {op : Alu} (h : Alu.ofDigit? n = some op) :
    op.digit = n := by
  unfold Alu.ofDigit? at h
  split at h <;> simp at h <;> subst h <;> rfl

namespace Instruction

theorem toNat_pack {family rest : Nat} (hf : family < 16) (hr : rest < 0x1000) :
    (pack family rest).toNat = family * 0x1000 + rest := by
  rw [pack, UInt16.toNat_ofNat', Nat.mod_eq_of_lt (by omega)]

theorem ofWord?_pack (f x y n : Digit) :
    ofWord? (pack f.val (x.val * 0x100 + y.val * 0x10 + n.val)) = ofDigits? f x y n := by
  have hr : x.val * 0x100 + y.val * 0x10 + n.val < 0x1000 := by omega
  unfold ofWord? family
  rw [toNat_pack f.isLt hr]
  congr 1 <;> apply Fin.ext <;> rw [Digit.val_lowest] <;> omega

theorem ofWord?_pack_address {f : Nat} (hf : f < 16) (a : Address) :
    ofWord? (pack f a.val) =
      ofDigits? ⟨f, hf⟩ (Digit.lowest (a.val / 0x100)) (Digit.lowest (a.val / 0x10))
        (Digit.lowest a.val) := by
  rw [← ofWord?_pack ⟨f, hf⟩, Digit.val_lowest, Digit.val_lowest, Digit.val_lowest,
    show a.val / 0x100 % 16 * 0x100 + a.val / 0x10 % 16 * 0x10 + a.val % 16 = a.val from by omega]

/-- Of a word whose low byte is an operand, the digits of the byte are read as the last two. -/
theorem ofWord?_pack_byte {f : Nat} (hf : f < 16) (x : Digit) (b : UInt8) :
    ofWord? (pack f (x.val * 0x100 + b.toNat)) =
      ofDigits? ⟨f, hf⟩ x (Digit.lowest (b.toNat / 0x10)) (Digit.lowest b.toNat) := by
  have := b.toNat_lt
  rw [← ofWord?_pack ⟨f, hf⟩, Digit.val_lowest, Digit.val_lowest,
    show x.val * 0x100 + b.toNat / 0x10 % 16 * 0x10 + b.toNat % 16 = x.val * 0x100 + b.toNat from
      by omega]

/-- An address from its three digits. -/
theorem address_of_digits (a : Address) :
    Address.lowest (a.val / 0x100 % 16 * 0x100 + a.val / 0x10 % 16 * 0x10 + a.val % 16) = a := by
  apply Fin.ext
  rw [Address.val_lowest]
  omega

/-- A byte from its two digits. -/
theorem byte_of_digits (b : UInt8) :
    UInt8.ofNat (b.toNat / 0x10 % 16 * 0x10 + b.toNat % 16) = b := by
  have := b.toNat_lt
  apply UInt8.toNat_inj.1
  rw [UInt8.toNat_ofNat']
  omega

/-- Every instruction is read back from its word. -/
theorem ofWord?_toWord (i : Instruction) : ofWord? i.toWord = some i := by
  cases i with
  | clearScreen | ret => rfl
  | jump nnn | call nnn | setIndex nnn | jumpBy nnn =>
    refine (ofWord?_pack_address (by decide) nnn).trans ?_
    simp [ofDigits?, Digit.val_lowest, address_of_digits]
  | skipIfByte x nn | skipUnlessByte x nn | setByte x nn | addByte x nn | random x nn =>
    refine (ofWord?_pack_byte (by decide) x nn).trans ?_
    simp only [ofDigits?, Digit.val_lowest, byte_of_digits]
  | skipIfSame x y | skipUnlessSame x y =>
    rw [toWord, ← Nat.add_zero (x.val * 0x100 + y.val * 0x10)]
    exact (ofWord?_pack ⟨_, by decide⟩ x y ⟨0, by decide⟩).trans (by simp [ofDigits?])
  | draw x y n => exact ofWord?_pack ⟨13, by decide⟩ x y n
  | alu op x y =>
    refine (ofWord?_pack ⟨8, by decide⟩ x y ⟨op.digit, op.digit_lt⟩).trans ?_
    simp [ofDigits?, Alu.ofDigit?_digit]
  | skipIfHeld x => exact ofWord?_pack_byte (f := 14) (by decide) x 0x9E
  | skipUnlessHeld x => exact ofWord?_pack_byte (f := 14) (by decide) x 0xA1
  | readDelay x => exact ofWord?_pack_byte (f := 15) (by decide) x 0x07
  | awaitKey x => exact ofWord?_pack_byte (f := 15) (by decide) x 0x0A
  | setDelay x => exact ofWord?_pack_byte (f := 15) (by decide) x 0x15
  | setSound x => exact ofWord?_pack_byte (f := 15) (by decide) x 0x18
  | addIndex x => exact ofWord?_pack_byte (f := 15) (by decide) x 0x1E
  | pointGlyph x => exact ofWord?_pack_byte (f := 15) (by decide) x 0x29
  | storeDecimal x => exact ofWord?_pack_byte (f := 15) (by decide) x 0x33
  | storeRegisters x => exact ofWord?_pack_byte (f := 15) (by decide) x 0x55
  | loadRegisters x => exact ofWord?_pack_byte (f := 15) (by decide) x 0x65

/-- Two digits fit in a byte. -/
theorem toNat_ofDigits (y n : Digit) :
    (UInt8.ofNat (y.val * 0x10 + n.val)).toNat = y.val * 0x10 + n.val := by
  rw [UInt8.toNat_ofNat']
  omega

/-- Three digits fit in an address. -/
theorem val_lowest_ofDigits (x y n : Digit) :
    (Address.lowest (x.val * 0x100 + y.val * 0x10 + n.val)).val =
      x.val * 0x100 + y.val * 0x10 + n.val := by
  rw [Address.val_lowest]
  omega

/-- Where four digits stand for an instruction, its word has these digits. -/
theorem toWord_of_ofDigits? {f x y n : Digit} {i : Instruction} (h : ofDigits? f x y n = some i) :
    i.toWord = pack f.val (x.val * 0x100 + y.val * 0x10 + n.val) := by
  have hb := toNat_ofDigits y n
  have ha := val_lowest_ofDigits x y n
  unfold ofDigits? at h
  dsimp only at h
  rw [ha, hb] at h
  split at h <;> rename_i hf
  · split at h <;> rename_i hn
    · cases h; rw [hf, hn]; rfl
    · cases h; rw [hf, hn]; rfl
    · cases h
  · cases h; rw [hf]; simp only [toWord, ha]
  · cases h; rw [hf]; simp only [toWord, ha]
  · cases h; rw [hf]; simp only [toWord, hb, Nat.add_assoc]
  · cases h; rw [hf]; simp only [toWord, hb, Nat.add_assoc]
  · split at h <;> rename_i hn
    · cases h; rw [hf, hn, toWord, Nat.add_zero]
    · cases h
  · cases h; rw [hf]; simp only [toWord, hb, Nat.add_assoc]
  · cases h; rw [hf]; simp only [toWord, hb, Nat.add_assoc]
  · rw [Option.map_eq_some_iff] at h
    obtain ⟨op, ho, rfl⟩ := h
    rw [hf, toWord, Alu.digit_of_ofDigit? ho]
  · split at h <;> rename_i hn
    · cases h; rw [hf, hn, toWord, Nat.add_zero]
    · cases h
  · cases h; rw [hf]; simp only [toWord, ha]
  · cases h; rw [hf]; simp only [toWord, ha]
  · cases h; rw [hf]; simp only [toWord, hb, Nat.add_assoc]
  · cases h; rw [hf]; rfl
  · split at h <;> rename_i hn <;> cases h <;> rw [hf, toWord, Nat.add_assoc, hn]
  · split at h <;> rename_i hn <;> cases h <;> rw [hf, toWord, Nat.add_assoc, hn]
  · cases h

/-- A word is that of the instruction it stands for. -/
theorem toWord_of_ofWord? {w : UInt16} {i : Instruction} (h : ofWord? w = some i) :
    i.toWord = w := by
  have := w.toNat_lt
  rw [toWord_of_ofDigits? h, pack, family]
  simp only [Digit.val_lowest]
  apply UInt16.toNat_inj.1
  rw [UInt16.toNat_ofNat']
  omega

/-- A word stands for an instruction exactly if it is the instruction's word. -/
theorem ofWord?_eq_some_iff {w : UInt16} {i : Instruction} : ofWord? w = some i ↔ w = i.toWord :=
  ⟨fun h => (toWord_of_ofWord? h).symm, fun h => h ▸ ofWord?_toWord i⟩

/-- A word is a call of an address if its first digit is 2 and the others are the address. -/
theorem eq_toWord_call_iff {w : UInt16} {nnn : Address} :
    w = (call nnn).toWord ↔ w.toNat / 0x1000 = 2 ∧ nnn = Address.lowest w.toNat := by
  have hlt := w.toNat_lt
  constructor
  · rintro rfl
    rw [toWord, toNat_pack (by decide) nnn.isLt]
    refine ⟨by omega, Fin.ext ?_⟩
    rw [Address.val_lowest]
    omega
  · rintro ⟨h, rfl⟩
    refine UInt16.toNat_inj.1 ?_
    rw [toWord, toNat_pack (by decide) (Fin.isLt _), Address.val_lowest]
    omega

end Instruction
end ChipEight
