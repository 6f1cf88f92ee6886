import ChipEight.Clock
import ChipEight.Event
import ChipEight.Keypad
import ChipEight.Machine.Registers
import ChipEight.Memory
import ChipEight.Screen.Basic

/-!
# The machine

All the parts together, and the operations by which a host sets a machine up and looks at it. The
machine remembers the last program it was given, so that a reset can install it afresh. Operations
that start to count time anew are told what the time source reads.
-/

namespace ChipEight

/-- A machine and its remembered program. -/
structure Machine where
  registers : Registers
  clock : Clock
  screen : Screen
  keypad : Keypad
  memory : Memory
  program : Array UInt8
  deriving DecidableEq

namespace Machine

def fresh (rate : UInt32) (dialect : Dialect) (now : Reading) : Machine where
  registers := .start dialect
  clock := .start rate now
  screen := .blank
  keypad := .idle
  memory := .blank
  program := #[]

/-- Counts time from a new source, which reads `now`. -/
def attach (m : Machine) (now : Reading) : Machine :=
  { m with clock := m.clock.attach now }

/-- Puts the machine in its power-on state, with the remembered program in memory. -/
def reset (m : Machine) (now : Reading) : Machine × List Event :=
  let installed := Memory.blank.install m.program
  let machine :=
    { m with
      registers := .start m.registers.dialect
      clock := m.clock.reset now
      screen := m.screen.clear
      keypad := .idle
      memory := installed.toOption.getD .blank }
  match installed with
  | .ok _ => (machine, [.reset])
  | .error cause => (machine, [.programLost cause, .reset])

/-- Loads a program and resets the machine to run it. A program that does not fit changes
nothing. -/
def load (m : Machine) (now : Reading) (program : Array UInt8) :
    Except Oversize (Machine × List Event) := do
  let memory ← m.memory.install program
  let (machine, events) := { m with memory, program : Machine }.reset now
  return (machine, events ++ [.loaded program.size])

def press (m : Machine) (code : UInt8) : Machine :=
  { m with keypad := m.keypad.press code }

def release (m : Machine) (code : UInt8) : Machine :=
  { m with keypad := m.keypad.release code }

/-- The display frame, which is packed afresh only if the screen has changed. -/
def displayFrame (m : Machine) : Vector UInt8 257 × Machine :=
  let (frame, screen) := m.screen.displayFrame
  (frame, { m with screen })

/-- All of memory, as a frame. -/
def debugFrame (m : Machine) : Vector UInt8 4097 :=
  m.memory.debugFrame

end Machine
end ChipEight
