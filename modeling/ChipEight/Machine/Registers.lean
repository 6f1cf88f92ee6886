import ChipEight.Instruction.Basic

/-!
# Registers

The state that a program works on besides memory, screen, keys and timers: sixteen byte registers,
the index, the program counter and the stack of the calls that have not returned. A stack slot
holds the address of the call itself, so a return goes on just past it. Slots at and above the
stack pointer keep what was last in them.
-/

namespace ChipEight

/-- Whether instructions are executed or the program is parked until a key is pressed. -/
inductive Mode where
  | running
  | awaitingKey
  deriving Repr, DecidableEq

/-- The registers, and the last word that was executed with its address. -/
structure Registers where
  v : Vector UInt8 16
  i : UInt16
  pc : UInt64
  sp : UInt64
  stack : Vector UInt64 16
  mode : Mode
  dialect : Dialect
  lastWord : UInt16
  lastAddress : UInt64
  deriving DecidableEq

namespace Registers

/-- The registers when a program starts: all zero, but for the program counter. -/
def start (dialect : Dialect) : Registers where
  v := Vector.replicate 16 0
  i := 0
  pc := 0x200
  sp := 0
  stack := Vector.replicate 16 0
  mode := .running
  dialect := dialect
  lastWord := 0
  lastAddress := 0

def get (r : Registers) (x : Reg) : UInt8 :=
  r.v[x]

def put (r : Registers) (x : Reg) (b : UInt8) : Registers :=
  { r with v := r.v.set x b }

/-- Puts a value in a register and after it the flag, if there is one. A flag that shares the
register with the value replaces it. -/
def putFlagged (r : Registers) (x : Reg) : UInt8 × Option UInt8 → Registers
  | (b, none) => r.put x b
  | (b, some flag) => (r.put x b).put .flag flag

/-- Records the word that is about to be executed. -/
def record (r : Registers) (word : UInt16) : Registers :=
  { r with lastWord := word, lastAddress := r.pc }

def next (r : Registers) : Registers :=
  { r with pc := r.pc + 2 }

/-- Goes on with the instruction after the next one if the condition holds, and else with the
next one. -/
def skipIf (r : Registers) (condition : Bool) : Registers :=
  { r with pc := if condition then r.pc + 4 else r.pc + 2 }

def jump (r : Registers) (target : UInt64) : Registers :=
  { r with pc := target }

/-- Pushes the program counter and goes on at an address. If the stack pointer lies outside of the
stack this breaks off, with the registers as they were. -/
def call (r : Registers) (target : UInt64) : Except Registers Registers :=
  if h : r.sp.toNat < 16 then
    .ok { r with stack := r.stack.set r.sp.toNat r.pc, sp := r.sp + 1, pc := target }
  else
    .error r

/-- Pops the address of a call and goes on just past it. If the popped slot lies outside of the
stack this breaks off, with the stack pointer already moved. -/
def ret (r : Registers) : Except Registers Registers :=
  if h : 0 < r.sp.toNat ∧ r.sp.toNat ≤ 16 then
    .ok { r with sp := r.sp - 1, pc := r.stack[r.sp.toNat - 1] + 2 }
  else
    .error { r with sp := r.sp - 1 }

/-- Moves the index past `n` transferred bytes, where the dialect asks for it. -/
def advanceIndex (r : Registers) (n : Nat) : Registers :=
  if r.dialect.advancesIndex then { r with i := r.i + UInt16.ofNat n } else r

/-- The registers `V0` to `Vx`, in order. -/
def upTo (r : Registers) (x : Reg) : List UInt8 :=
  r.v.toList.take (x.val + 1)

/-- Puts bytes in the registers `V0` to `Vx`, the one for register `k` being `bytes k`. -/
def putUpTo (r : Registers) (x : Reg) (bytes : Nat → UInt8) : Registers :=
  { r with v := tabulate fun k => if k ≤ x then bytes k.val else r.get k }

end Registers
end ChipEight
