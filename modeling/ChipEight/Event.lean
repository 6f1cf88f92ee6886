import ChipEight.Instruction.Word
import ChipEight.Memory

/-!
# Faults and events

A fault is why an instruction cannot be carried out. Everything else that can go wrong while a
program runs is reported and passed over. An event is what a machine and its host report while they
work; it knows how severe it is, which part of the program it comes from and how it reads.
-/

namespace ChipEight

/-! ## Faults -/

inductive Fault where
  /-- The program counter has left program memory, and the machine has halted for good. -/
  | halted (pc : UInt64)
  /-- A call or a return reaches past the sixteen slots of the stack. Only a stack pointer that
  was put there from outside leads to it. -/
  | stackOutOfRange
  deriving Repr, DecidableEq

namespace Fault

def message : Fault → String
  | halted pc => "program counter out of bounds: " ++ Hex.address pc.toNat
  | stackOutOfRange => "stack index out of range"

/-- Whether the fault means that the machine has halted for good. -/
def isFatal : Fault → Bool
  | halted _ => true
  | stackOutOfRange => false

end Fault

/-! ## Events -/

inductive Level where
  | error
  | warn
  | info
  | debug
  | trace
  deriving Repr, DecidableEq

namespace Level

def name : Level → String
  | error => "ERROR"
  | warn => "WARN"
  | info => "INFO"
  | debug => "DEBUG"
  | trace => "TRACE"

/-- How much detail a level admits; `0` is left for none at all. -/
def detail : Level → Nat
  | error => 1
  | warn => 2
  | info => 3
  | debug => 4
  | trace => 5

end Level

inductive Event where
  | outOfBounds (pc : UInt64)
  /-- A word was fetched and is about to be executed. -/
  | fetched (pc : UInt64) (word : UInt16)
  /-- A word stands for no instruction. -/
  | undocumented (word : UInt16)
  | stackUnderflow (pc : UInt64)
  | stackOverflow (target : Address) (pc : UInt64)
  | awaitingKey (x : Reg)
  /-- A program received the key it waited for. -/
  | keyTaken (key : Digit) (x : Reg)
  /-- There was no random byte left. -/
  | noEntropy
  /-- A reset found that the remembered program does not fit. -/
  | programLost (cause : Oversize)
  /-- The machine is in its power-on state. -/
  | reset
  | loaded (size : Nat)
  | running (rate : UInt32)
  | stopped (executed : UInt64)
  /-- A saved state is about to be read. -/
  | restoring (path : String)
  | programLoaded (path : String)
  | saved (path : String)
  | saveFailed (path reason : String)
  | failed (reason : String)
  deriving Repr, DecidableEq

namespace Event

def level : Event → Level
  | outOfBounds _ | undocumented _ | stackUnderflow _ | stackOverflow _ _ => .error
  | programLost _ | saveFailed _ _ | failed _ => .error
  | noEntropy => .warn
  | running _ | stopped _ | restoring _ | programLoaded _ | saved _ => .info
  | awaitingKey _ | keyTaken _ _ | reset | loaded _ => .debug
  | fetched _ _ => .trace

/-- The part of the program that an event comes from. -/
def target : Event → String
  | outOfBounds _ | fetched _ _ | undocumented _ | stackUnderflow _ | stackOverflow _ _
  | awaitingKey _ | keyTaken _ _ | noEntropy => "chip8::processor"
  | programLost _ | reset | loaded _ => "chip8"
  | running _ | stopped _ => "chip8_run::app"
  | restoring _ | programLoaded _ | saved _ | saveFailed _ _ | failed _ => "chip8_run"

/-- How the complaint about an undocumented word begins, by the word's family. -/
def complaint (word : UInt16) : String :=
  match Instruction.family word with
  | 0x0 => "Invalid 0x0___ instruction: "
  | 0x8 => "Invalid 8XY_ instruction: "
  | 0xE => "Invalid EX__ instruction: "
  | 0xF => "Invalid FX__ instruction: "
  | _ => "Unknown opcode: "

def message : Event → String
  | outOfBounds pc => "Program counter out of bounds: " ++ Hex.address pc.toNat
  | fetched pc word => Hex.address pc.toNat ++ ": " ++ Hex.word word
  | undocumented word => complaint word ++ Hex.word word
  | stackUnderflow pc =>
    "Stack underflow: return with empty stack at " ++ Hex.address pc.toNat
  | stackOverflow target pc =>
    "Stack overflow: call to " ++ Hex.address target.val ++ " at " ++ Hex.address pc.toNat ++
      " exceeds 16 levels"
  | awaitingKey x => "Waiting for key press into V" ++ Hex.numeral x.val
  | keyTaken key x =>
    "Key 0x" ++ Hex.numeral key.val ++ " pressed, stored in V" ++ Hex.numeral x.val
  | noEntropy => "Failed to get a random byte: no entropy"
  | programLost cause => "Failed to reinstall program: " ++ cause.message
  | reset => "Reset"
  | loaded size => s!"Loaded {size} byte program"
  | running rate => s!"Running at {rate} steps per second"
  | stopped executed => s!"Stopped after {executed} steps"
  | restoring path => "Restoring state from " ++ path
  | programLoaded path => "Loaded " ++ path
  | saved path => "Saved state to " ++ path
  | saveFailed path reason => "Failed to save Chip8 state to " ++ path ++ ": " ++ reason ++ "."
  | failed reason => reason

def summary (e : Event) : String :=
  e.level.name ++ " " ++ e.message

/-- The line that a log holds for an event. -/
def line (e : Event) : String :=
  "[" ++ e.level.name ++ " " ++ e.target ++ "] " ++ e.message

end Event
end ChipEight
