import ChipEight.Proofs.HeldKeys

/-!
# The latch as a byte

A keypad whose keys are pressed from several sides keeps its latch in one byte, so that it can be
looked at and changed in one go: a truncated key code, or a mark where no key has been pressed. The
mark is not what truncation leaves of any code (`truncate_ne_noKey`), so nothing is lost by a latch
that holds a key or nothing. Such a byte and the latch of a `Keypad` give the same answers to the
same calls (`Keypad.calls_inBytes`).
-/

namespace ChipEight

/-- The code of a key in one byte. -/
def keyCode (key : Digit) : UInt8 :=
  UInt8.ofNat key.val

/-- The lowest four bits of a key code. -/
def truncate (code : UInt8) : UInt8 :=
  code &&& 0xF

/-- What is left of a code is the code of its key. -/
theorem keyCode_keyOf (code : UInt8) : keyCode (keyOf code) = truncate code := by
  refine (ofNat_keyOf code).trans (UInt8.toNat_inj.1 ?_)
  have hsixteen : UInt8.toNat 16 = 2 ^ 4 := rfl
  have hfifteen : UInt8.toNat 0xF = 2 ^ 4 - 1 := rfl
  unfold truncate
  rw [UInt8.toNat_mod, UInt8.toNat_and, hsixteen, hfifteen, Nat.and_two_pow_sub_one_eq_mod]

theorem keyCode_keyOf_of_lt {code : UInt8} (h : code.toNat < 16) :
    keyCode (keyOf code) = code := by
  refine (ofNat_keyOf code).trans (UInt8.toNat_inj.1 ?_)
  have hsixteen : UInt8.toNat 16 = 16 := rfl
  rw [UInt8.toNat_mod, hsixteen, Nat.mod_eq_of_lt h]

theorem keyOf_keyCode (key : Digit) : keyOf (keyCode key) = key := by
  revert key
  decide

theorem toNat_keyCode (key : Digit) : (keyCode key).toNat = key.val := by
  revert key
  decide

theorem toNat_truncate (code : UInt8) : (truncate code).toNat = (keyOf code).val := by
  rw [← keyCode_keyOf, toNat_keyCode]

theorem toNat_truncate_lt (code : UInt8) : (truncate code).toNat < 16 := by
  rw [toNat_truncate]
  exact (keyOf code).isLt

/-- A keypad with its latch in one byte. -/
structure ByteKeypad where
  held : Vector Bool 16
  latched : UInt8
  deriving DecidableEq

namespace ByteKeypad

/-- What the latch holds if no key has been pressed since the wait began. -/
abbrev noKey : UInt8 := 0xFF

def idle : ByteKeypad where
  held := Vector.replicate 16 false
  latched := noKey

def isHeld (b : ByteKeypad) (code : UInt8) : Bool :=
  b.held.get ⟨(truncate code).toNat, toNat_truncate_lt code⟩

/-- A key goes down. Its code takes the place of the mark, and of nothing else. -/
def press (b : ByteKeypad) (code : UInt8) : ByteKeypad where
  held := b.held.set (truncate code).toNat true (toNat_truncate_lt code)
  latched := if b.latched = noKey then truncate code else b.latched

def release (b : ByteKeypad) (code : UInt8) : ByteKeypad :=
  { b with held := b.held.set (truncate code).toNat false (toNat_truncate_lt code) }

def beginWait (b : ByteKeypad) : ByteKeypad :=
  { b with latched := noKey }

/-- What the latch holds, which is exchanged for the mark. -/
def takePress (b : ByteKeypad) : Option UInt8 × ByteKeypad :=
  (if b.latched = noKey then none else some b.latched, b.beginWait)

/-- The keypad whose latch holds a key in place of its code, and nothing in place of the mark. -/
def toKeypad (b : ByteKeypad) : Keypad where
  held := b.held
  latch := if b.latched = noKey then none else some (keyOf b.latched)

end ByteKeypad

/-! ## The mark -/

/-- The mark is not the code of a key. -/
theorem keyCode_ne_noKey (key : Digit) : keyCode key ≠ ByteKeypad.noKey := by
  revert key
  decide

/-- The mark is not what is left of a code. -/
theorem truncate_ne_noKey (code : UInt8) : truncate code ≠ ByteKeypad.noKey := by
  rw [← keyCode_keyOf]
  exact keyCode_ne_noKey _

/-! ## Keypads in bytes -/

namespace Keypad

/-- What the latch holds, in one byte. -/
def latchByte (k : Keypad) : UInt8 :=
  k.latch.elim ByteKeypad.noKey keyCode

/-- The keypad with its latch in one byte. -/
def inBytes (k : Keypad) : ByteKeypad where
  held := k.held
  latched := k.latchByte

theorem latchByte_of_none {k : Keypad} (h : k.latch = none) : k.latchByte = ByteKeypad.noKey := by
  unfold latchByte
  rw [h]
  rfl

theorem latchByte_of_some {k : Keypad} {key : Digit} (h : k.latch = some key) :
    k.latchByte = keyCode key := by
  unfold latchByte
  rw [h]
  rfl

/-- The keypad is told from its bytes. -/
theorem toKeypad_inBytes (k : Keypad) : k.inBytes.toKeypad = k := by
  refine congrArg (Keypad.mk k.held) ?_
  change (if k.latchByte = ByteKeypad.noKey then none else some (keyOf k.latchByte)) = k.latch
  cases hlatch : k.latch with
  | none => exact if_pos (latchByte_of_none hlatch)
  | some key =>
    rw [latchByte_of_some hlatch, if_neg (keyCode_ne_noKey key), keyOf_keyCode]

/-- No two keypads are the same in bytes. -/
theorem inBytes_inj {k k' : Keypad} : k.inBytes = k'.inBytes ↔ k = k' :=
  (Function.LeftInverse.injective toKeypad_inBytes).eq_iff

/-- A byte is what the latch of some keypad holds if it is the mark or below sixteen. -/
theorem exists_inBytes_eq_iff {b : ByteKeypad} :
    (∃ k : Keypad, k.inBytes = b) ↔ b.latched = ByteKeypad.noKey ∨ b.latched.toNat < 16 := by
  constructor
  · rintro ⟨k, rfl⟩
    cases hlatch : k.latch with
    | none => exact .inl (latchByte_of_none hlatch)
    | some key =>
      right
      change k.latchByte.toNat < 16
      rw [latchByte_of_some hlatch, toNat_keyCode]
      exact key.isLt
  · intro h
    refine ⟨b.toKeypad, congrArg (ByteKeypad.mk b.held) ?_⟩
    change (if b.latched = ByteKeypad.noKey then none else some (keyOf b.latched)).elim
      ByteKeypad.noKey keyCode = b.latched
    by_cases hmark : b.latched = ByteKeypad.noKey
    · rw [if_pos hmark]
      exact hmark.symm
    · rw [if_neg hmark]
      exact keyCode_keyOf_of_lt (h.resolve_left hmark)

theorem inBytes_idle : Keypad.idle.inBytes = .idle :=
  rfl

/-- The place of a key among the held ones is its code. -/
theorem set_truncate (held : Vector Bool 16) (code : UInt8) (down : Bool)
    (hlt : (keyOf code).val < 16) :
    held.set (truncate code).toNat down (toNat_truncate_lt code) =
      held.set (keyOf code).val down hlt := by
  simp only [toNat_truncate]

variable (k : Keypad) (code : UInt8)

/-- Pressing a key exchanges the mark for its code where the latch is empty. -/
theorem inBytes_press : (k.press code).inBytes = k.inBytes.press code := by
  have hheld := set_truncate k.held code true (keyOf code).isLt
  refine (congrArg (ByteKeypad.mk · _) hheld.symm).trans (congrArg (ByteKeypad.mk _) ?_)
  change (k.press code).latchByte =
    if k.latchByte = ByteKeypad.noKey then truncate code else k.latchByte
  cases hlatch : k.latch with
  | none =>
    have hpressed : (k.press code).latch = some (keyOf code) :=
      congrArg (· <|> some (keyOf code)) hlatch
    rw [latchByte_of_some hpressed, if_pos (latchByte_of_none hlatch), keyCode_keyOf]
  | some first =>
    have hpressed : (k.press code).latch = some first :=
      congrArg (· <|> some (keyOf code)) hlatch
    have hne : k.latchByte ≠ ByteKeypad.noKey := by
      rw [latchByte_of_some hlatch]
      exact keyCode_ne_noKey first
    rw [latchByte_of_some hpressed, if_neg hne, latchByte_of_some hlatch]

theorem inBytes_release : (k.release code).inBytes = k.inBytes.release code :=
  congrArg (ByteKeypad.mk · _) (set_truncate k.held code false (keyOf code).isLt).symm

theorem isHeld_inBytes : k.inBytes.isHeld code = k.isHeld code :=
  congrArg k.held.get (Fin.ext (toNat_truncate code))

theorem inBytes_beginWait : k.beginWait.inBytes = k.inBytes.beginWait :=
  rfl

/-- Taking a press gives the code of the latched key. -/
theorem inBytes_takePress :
    k.inBytes.takePress = (k.takePress.1.map keyCode, k.takePress.2.inBytes) := by
  refine congrArg (Prod.mk · _) ?_
  change (if k.latchByte = ByteKeypad.noKey then none else some k.latchByte) = k.latch.map keyCode
  cases hlatch : k.latch with
  | none => exact if_pos (latchByte_of_none hlatch)
  | some key =>
    rw [latchByte_of_some hlatch]
    exact if_neg (keyCode_ne_noKey key)

end Keypad

/-! ## Calls -/

/-- What is asked of a keypad. Only taking a press has an answer. -/
inductive KeypadCall where
  | press (code : UInt8)
  | release (code : UInt8)
  | beginWait
  | takePress
  | releaseAll
  deriving Repr, DecidableEq

/-- The answer to a call, and the keypad after it. -/
def Keypad.call (k : Keypad) : KeypadCall → Option Digit × Keypad
  | .press code => (none, k.press code)
  | .release code => (none, k.release code)
  | .beginWait => (none, k.beginWait)
  | .takePress => k.takePress
  | .releaseAll => (none, .idle)

def ByteKeypad.call (b : ByteKeypad) : KeypadCall → Option UInt8 × ByteKeypad
  | .press code => (none, b.press code)
  | .release code => (none, b.release code)
  | .beginWait => (none, b.beginWait)
  | .takePress => b.takePress
  | .releaseAll => (none, .idle)

/-- The answers to calls, and the keypad after them. -/
def Keypad.calls (k : Keypad) : List KeypadCall → List (Option Digit) × Keypad
  | [] => ([], k)
  | c :: cs => ((k.call c).1 :: ((k.call c).2.calls cs).1, ((k.call c).2.calls cs).2)

def ByteKeypad.calls (b : ByteKeypad) : List KeypadCall → List (Option UInt8) × ByteKeypad
  | [] => ([], b)
  | c :: cs => ((b.call c).1 :: ((b.call c).2.calls cs).1, ((b.call c).2.calls cs).2)

namespace Keypad

/-- A call has the same answer, and the same outcome, with the latch in one byte. -/
theorem call_inBytes (k : Keypad) (c : KeypadCall) :
    k.inBytes.call c = ((k.call c).1.map keyCode, (k.call c).2.inBytes) := by
  cases c with
  | press code => exact congrArg (Prod.mk none) (k.inBytes_press code).symm
  | release code => exact congrArg (Prod.mk none) (k.inBytes_release code).symm
  | beginWait => exact congrArg (Prod.mk none) k.inBytes_beginWait.symm
  | takePress => exact k.inBytes_takePress
  | releaseAll => exact congrArg (Prod.mk none) inBytes_idle.symm

/-- Whatever is asked of a keypad, it answers the same with its latch in one byte. -/
theorem calls_inBytes (k : Keypad) (cs : List KeypadCall) :
    k.inBytes.calls cs = ((k.calls cs).1.map (·.map keyCode), (k.calls cs).2.inBytes) := by
  induction cs generalizing k with
  | nil => rfl
  | cons c cs ih =>
    unfold ByteKeypad.calls
    rw [call_inBytes, ih]
    rfl

end Keypad

/-- Whatever a rig has been through, the byte of its latch is the mark or the code of a press since
the keys were last all released, cut to four bits. -/
theorem History.latchByte (h : History) :
    h.rig.machine.keypad.latchByte = ByteKeypad.noKey ∨
      ∃ code, .press code ∈ h.keyEvents ∧ h.rig.machine.keypad.latchByte = truncate code := by
  cases hlatch : h.rig.machine.keypad.latch with
  | none => exact .inl (Keypad.latchByte_of_none hlatch)
  | some key =>
    rcases h.shows_keyEvents.latch key hlatch with ⟨code, hmem, rfl⟩
    refine .inr ⟨code, hmem, ?_⟩
    rw [Keypad.latchByte_of_some hlatch, keyCode_keyOf]

end ChipEight
