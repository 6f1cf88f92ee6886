import ChipEight.Machine.Basic
import ChipEight.Snapshot.Format

/-!
# Snapshots

What is kept of a machine when it is saved: all but the keypad, the last time reading and the
number of frames packed so far. `Machine.save` writes a snapshot as bytes and `Machine.restore`
builds a machine from them, with every key up and counting time from now. Whatever the bytes say
is taken as it is.
-/

namespace ChipEight

structure Snapshot where
  registers : Registers
  delay : UInt8
  sound : UInt8
  rate : UInt32
  cpuDebt : Debt
  timerDebt : Debt
  grid : Grid
  packed : Vector UInt8 257
  dirty : Bool
  memory : Memory
  program : Array UInt8
  deriving DecidableEq

namespace Snapshot

def modeFormat : Format Mode :=
  Format.word32.refine
    (fun w =>
      if w = 0 then .ok .running
      else if w = 1 then .ok .awaitingKey
      else .error (.badChoice w 2))
    (fun
      | .running => 0
      | .awaitingKey => 1)

def dialectFormat : Format Dialect :=
  (Format.flag.pair .flag).iso
    (fun (shiftsY, advancesIndex) => { shiftsY, advancesIndex })
    (fun d => (d.shiftsY, d.advancesIndex))

/-- The registers: 178 bytes. -/
def registersFormat : Format Registers :=
  ((Format.byte.vector 16).pair <| Format.word16.pair <| Format.word64.pair <|
    Format.word64.pair <| (Format.word64.vector 16).pair <| modeFormat.pair <|
    dialectFormat.pair <| Format.word16.pair .word64).iso
    (fun (v, i, pc, sp, stack, mode, dialect, lastWord, lastAddress) =>
      { v, i, pc, sp, stack, mode, dialect, lastWord, lastAddress })
    (fun r =>
      (r.v, r.i, r.pc, r.sp, r.stack, r.mode, r.dialect, r.lastWord, r.lastAddress))

/-- The pixels, one flag each. -/
def gridFormat : Format Grid :=
  (Format.flag.vector 2048).iso Grid.mk Grid.lit

def memoryFormat : Format Memory :=
  (Format.byte.vector 4096).iso Memory.mk Memory.bytes

/-- A whole snapshot: 6626 bytes and the program. -/
def format : Format Snapshot :=
  (registersFormat.pair <| Format.byte.pair <| Format.byte.pair <| Format.word32.pair <|
    Format.word128.pair <| Format.word128.pair <| gridFormat.pair <|
    (Format.byte.vector 257).pair <| Format.flag.pair <| memoryFormat.pair .bytes).iso
    (fun (registers, delay, sound, rate, cpuDebt, timerDebt, grid, packed, dirty, memory,
        program) =>
      { registers, delay, sound, rate, cpuDebt, timerDebt, grid, packed, dirty, memory, program })
    (fun s =>
      (s.registers, s.delay, s.sound, s.rate, s.cpuDebt, s.timerDebt, s.grid, s.packed, s.dirty,
        s.memory, s.program))

/-- The machine that a snapshot describes, with every key up and counting time from `now`. -/
def machine (s : Snapshot) (now : Reading) : Machine where
  registers := s.registers
  clock :=
    { delay := s.delay
      sound := s.sound
      rate := s.rate
      cpuDebt := s.cpuDebt
      timerDebt := s.timerDebt
      lastReading := now }
  screen :=
    { grid := s.grid
      packed := s.packed
      dirty := s.dirty
      packCount := 0 }
  keypad := .idle
  memory := s.memory
  program := s.program

end Snapshot

namespace Machine

def snapshot (m : Machine) : Snapshot where
  registers := m.registers
  delay := m.clock.delay
  sound := m.clock.sound
  rate := m.clock.rate
  cpuDebt := m.clock.cpuDebt
  timerDebt := m.clock.timerDebt
  grid := m.screen.grid
  packed := m.screen.packed
  dirty := m.screen.dirty
  memory := m.memory
  program := m.program

def save (m : Machine) : List UInt8 :=
  Snapshot.format.write m.snapshot

/-- The machine whose bytes stand in front; what comes after them is ignored. -/
def restore (now : Reading) (bytes : List UInt8) : Except Snapshot.Malformed Machine := do
  let (snapshot, _) ← Snapshot.format.read bytes
  return snapshot.machine now

end Machine
end ChipEight
