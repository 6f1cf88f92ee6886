import ChipEight.Basic

/-!
# Keypad

Sixteen keys, and a latch that catches the first key pressed since a program began to wait for
one. The latch also fills while nobody waits; beginning a wait empties it. Key codes are bytes of
which only the low four bits count.
-/

namespace ChipEight

/-- The key that a code names. -/
def keyOf (code : UInt8) : Digit :=
  Digit.lowest code.toNat

structure Keypad where
  held : Vector Bool 16
  latch : Option Digit
  deriving DecidableEq

namespace Keypad

/-- No key held and no press latched. -/
def idle : Keypad where
  held := Vector.replicate 16 false
  latch := none

def isHeld (k : Keypad) (code : UInt8) : Bool :=
  k.held[keyOf code]

/-- A key goes down. The latch keeps the first press it sees. -/
def press (k : Keypad) (code : UInt8) : Keypad where
  held := k.held.set (keyOf code) true
  latch := k.latch <|> some (keyOf code)

def release (k : Keypad) (code : UInt8) : Keypad :=
  { k with held := k.held.set (keyOf code) false }

/-- Forgets every press so far: from now on the latch waits for a fresh one. -/
def beginWait (k : Keypad) : Keypad :=
  { k with latch := none }

/-- The latched press, which leaves the latch. -/
def takePress (k : Keypad) : Option Digit × Keypad :=
  (k.latch, k.beginWait)

theorem isHeld_press (k : Keypad) (code other : UInt8) :
    (k.press code).isHeld other = if keyOf code = keyOf other then true else k.isHeld other := by
  simp [isHeld, press, Vector.getElem_set, Fin.ext_iff]

theorem isHeld_release (k : Keypad) (code other : UInt8) :
    (k.release code).isHeld other = if keyOf code = keyOf other then false else k.isHeld other := by
  simp [isHeld, release, Vector.getElem_set, Fin.ext_iff]

@[simp] theorem isHeld_idle (code : UInt8) : Keypad.idle.isHeld code = false := by
  simp [isHeld, idle]

end Keypad
end ChipEight
