import ChipEight.Basic

/-!
# Instructions

The instruction set as a type: one constructor per documented form, with the operands the form
names. `x` and `y` are registers, `nn` a byte, `nnn` an address and `n` a number of sprite rows.
The arithmetic of two registers is a type of its own, as its nine operations share one shape: they
compute a value and, all but copying, a flag.
-/

namespace ChipEight

abbrev Reg := Digit

/-- `V0`, the register that a jump may add. -/
abbrev Reg.first : Reg := 0

/-- `VF`, the register that receives carries, borrows and collisions. -/
abbrev Reg.flag : Reg := 15

/-- What programs may expect of the instructions on which interpreters disagree. -/
structure Dialect where
  /-- Shifts move `Vy` into `Vx`, instead of shifting `Vx` in place. -/
  shiftsY : Bool
  /-- Block transfers leave the index just past the last byte, instead of where it was. -/
  advancesIndex : Bool
  deriving Repr, DecidableEq

/-- Shifts are in place and transfers leave the index alone. -/
def Dialect.standard : Dialect where
  shiftsY := false
  advancesIndex := false

inductive Alu where
  | copy
  | or
  | and
  | xor
  | add
  | sub
  | shiftRight
  /-- Subtracts the first register from the second. -/
  | subFrom
  | shiftLeft
  deriving Repr, DecidableEq

/-- The value that goes to `Vx` and the flag, from the old `Vx` and `Vy`. The flag is a carry for
sums, the absence of a borrow for differences, the bit that falls off for shifts and zero for the
bitwise operations. -/
def Alu.eval (dialect : Dialect) (a b : UInt8) : Alu → UInt8 × Option UInt8
  | copy => (b, none)
  | or => (a ||| b, some 0)
  | and => (a &&& b, some 0)
  | xor => (a ^^^ b, some 0)
  | add => (a + b, some (if a.toNat + b.toNat < 256 then 0 else 1))
  | sub => (a - b, some (if b ≤ a then 1 else 0))
  | shiftRight => let s := if dialect.shiftsY then b else a; (s / 2, some (s % 2))
  | subFrom => (b - a, some (if a ≤ b then 1 else 0))
  | shiftLeft => let s := if dialect.shiftsY then b else a; (s * 2, some (s / 128))

inductive Instruction where
  /-- `00E0`: turns every pixel off. -/
  | clearScreen
  /-- `00EE`: returns from a call. -/
  | ret
  /-- `1nnn`: jumps. -/
  | jump (nnn : Address)
  /-- `2nnn`: calls. -/
  | call (nnn : Address)
  /-- `3xnn`: skips if `Vx` is `nn`. -/
  | skipIfByte (x : Reg) (nn : UInt8)
  /-- `4xnn`: skips unless `Vx` is `nn`. -/
  | skipUnlessByte (x : Reg) (nn : UInt8)
  /-- `5xy0`: skips if `Vx` is `Vy`. -/
  | skipIfSame (x y : Reg)
  /-- `9xy0`: skips unless `Vx` is `Vy`. -/
  | skipUnlessSame (x y : Reg)
  /-- `6xnn`: puts `nn` in `Vx`. -/
  | setByte (x : Reg) (nn : UInt8)
  /-- `7xnn`: adds `nn` to `Vx`, without a flag. -/
  | addByte (x : Reg) (nn : UInt8)
  /-- `8xy_`: computes `Vx` from `Vx` and `Vy`. -/
  | alu (op : Alu) (x y : Reg)
  /-- `Annn`: sets the index. -/
  | setIndex (nnn : Address)
  /-- `Bnnn`: jumps `V0` past `nnn`. -/
  | jumpBy (nnn : Address)
  /-- `Cxnn`: puts a random byte, masked with `nn`, in `Vx`. -/
  | random (x : Reg) (nn : UInt8)
  /-- `Dxyn`: draws `n` rows of the sprite at the index, at column `Vx` and row `Vy`. -/
  | draw (x y : Reg) (n : Digit)
  /-- `Ex9E`: skips if the key `Vx` is held. -/
  | skipIfHeld (x : Reg)
  /-- `ExA1`: skips unless the key `Vx` is held. -/
  | skipUnlessHeld (x : Reg)
  /-- `Fx07`: reads the delay timer. -/
  | readDelay (x : Reg)
  /-- `Fx0A`: waits for a key press. -/
  | awaitKey (x : Reg)
  /-- `Fx15`: sets the delay timer. -/
  | setDelay (x : Reg)
  /-- `Fx18`: sets the sound timer. -/
  | setSound (x : Reg)
  /-- `Fx1E`: adds `Vx` to the index. -/
  | addIndex (x : Reg)
  /-- `Fx29`: points the index at the glyph of the low digit of `Vx`. -/
  | pointGlyph (x : Reg)
  /-- `Fx33`: writes the three decimal digits of `Vx` at the index. -/
  | storeDecimal (x : Reg)
  /-- `Fx55`: writes `V0` to `Vx` at the index. -/
  | storeRegisters (x : Reg)
  /-- `Fx65`: reads `V0` to `Vx` from the index. -/
  | loadRegisters (x : Reg)
  deriving Repr, DecidableEq

/-- The mask of an instruction that takes a random byte. -/
def Instruction.mask? : Instruction → Option UInt8
  | .random _ nn => some nn
  | _ => none

end ChipEight
