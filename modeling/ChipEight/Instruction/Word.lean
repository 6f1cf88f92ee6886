import ChipEight.Instruction.Basic

/-!
# Instruction words

An instruction is a word of sixteen bits. `Instruction.toWord` writes it and `Instruction.ofWord?`
reads it back; the words that read as nothing are the undocumented ones. The highest digit of a
word tells its family, and the lower ones hold the operands or pick a member of the family.
-/

namespace ChipEight

/-- The lowest digit of a register operation. -/
def Alu.digit : Alu → Nat
  | copy => 0x0
  | or => 0x1
  | and => 0x2
  | xor => 0x3
  | add => 0x4
  | sub => 0x5
  | shiftRight => 0x6
  | subFrom => 0x7
  | shiftLeft => 0xE

/-- The register operation with the given lowest digit. -/
def Alu.ofDigit? : Nat → Option Alu
  | 0x0 => some copy
  | 0x1 => some or
  | 0x2 => some and
  | 0x3 => some xor
  | 0x4 => some add
  | 0x5 => some sub
  | 0x6 => some shiftRight
  | 0x7 => some subFrom
  | 0xE => some shiftLeft
  | _ => none

namespace Instruction

/-- A word from its highest digit and the rest. -/
def pack (family rest : Nat) : UInt16 :=
  UInt16.ofNat (family * 0x1000 + rest)

def toWord : Instruction → UInt16
  | clearScreen => 0x00E0
  | ret => 0x00EE
  | jump nnn => pack 0x1 nnn.val
  | call nnn => pack 0x2 nnn.val
  | skipIfByte x nn => pack 0x3 (x.val * 0x100 + nn.toNat)
  | skipUnlessByte x nn => pack 0x4 (x.val * 0x100 + nn.toNat)
  | skipIfSame x y => pack 0x5 (x.val * 0x100 + y.val * 0x10)
  | setByte x nn => pack 0x6 (x.val * 0x100 + nn.toNat)
  | addByte x nn => pack 0x7 (x.val * 0x100 + nn.toNat)
  | alu op x y => pack 0x8 (x.val * 0x100 + y.val * 0x10 + op.digit)
  | skipUnlessSame x y => pack 0x9 (x.val * 0x100 + y.val * 0x10)
  | setIndex nnn => pack 0xA nnn.val
  | jumpBy nnn => pack 0xB nnn.val
  | random x nn => pack 0xC (x.val * 0x100 + nn.toNat)
  | draw x y n => pack 0xD (x.val * 0x100 + y.val * 0x10 + n.val)
  | skipIfHeld x => pack 0xE (x.val * 0x100 + 0x9E)
  | skipUnlessHeld x => pack 0xE (x.val * 0x100 + 0xA1)
  | readDelay x => pack 0xF (x.val * 0x100 + 0x07)
  | awaitKey x => pack 0xF (x.val * 0x100 + 0x0A)
  | setDelay x => pack 0xF (x.val * 0x100 + 0x15)
  | setSound x => pack 0xF (x.val * 0x100 + 0x18)
  | addIndex x => pack 0xF (x.val * 0x100 + 0x1E)
  | pointGlyph x => pack 0xF (x.val * 0x100 + 0x29)
  | storeDecimal x => pack 0xF (x.val * 0x100 + 0x33)
  | storeRegisters x => pack 0xF (x.val * 0x100 + 0x55)
  | loadRegisters x => pack 0xF (x.val * 0x100 + 0x65)

/-- The family that a word's highest digit names. -/
def family (w : UInt16) : Nat :=
  w.toNat / 0x1000

/-- The instruction whose word has the given digits, the family first. -/
def ofDigits? (f x y n : Digit) : Option Instruction :=
  let nn : UInt8 := UInt8.ofNat (y.val * 0x10 + n.val)
  let nnn : Address := Address.lowest (x.val * 0x100 + y.val * 0x10 + n.val)
  match f.val with
  | 0x0 =>
    match nnn.val with
    | 0x0E0 => some clearScreen
    | 0x0EE => some ret
    | _ => none
  | 0x1 => some (jump nnn)
  | 0x2 => some (call nnn)
  | 0x3 => some (skipIfByte x nn)
  | 0x4 => some (skipUnlessByte x nn)
  | 0x5 => if n.val = 0 then some (skipIfSame x y) else none
  | 0x6 => some (setByte x nn)
  | 0x7 => some (addByte x nn)
  | 0x8 => (Alu.ofDigit? n.val).map fun op => alu op x y
  | 0x9 => if n.val = 0 then some (skipUnlessSame x y) else none
  | 0xA => some (setIndex nnn)
  | 0xB => some (jumpBy nnn)
  | 0xC => some (random x nn)
  | 0xD => some (draw x y n)
  | 0xE =>
    match nn.toNat with
    | 0x9E => some (skipIfHeld x)
    | 0xA1 => some (skipUnlessHeld x)
    | _ => none
  | 0xF =>
    match nn.toNat with
    | 0x07 => some (readDelay x)
    | 0x0A => some (awaitKey x)
    | 0x15 => some (setDelay x)
    | 0x18 => some (setSound x)
    | 0x1E => some (addIndex x)
    | 0x29 => some (pointGlyph x)
    | 0x33 => some (storeDecimal x)
    | 0x55 => some (storeRegisters x)
    | 0x65 => some (loadRegisters x)
    | _ => none
  | _ => none

/-- The instruction that a word stands for. -/
def ofWord? (w : UInt16) : Option Instruction :=
  ofDigits? (Digit.lowest (family w)) (Digit.lowest (w.toNat / 0x100))
    (Digit.lowest (w.toNat / 0x10)) (Digit.lowest w.toNat)

end Instruction
end ChipEight
