import ChipEight.Basic

/-!
# Memory

Four kilobytes of bytes. Every access takes its address modulo 4096, so no access can fail. The
bottom holds the glyphs of the sixteen hexadecimal digits, five bytes each, and programs start at
`0x200`.
-/

namespace ChipEight

/-- A program that does not fit between the start of program memory and the end of memory. -/
structure Oversize where
  size : Nat
  deriving Repr, DecidableEq

structure Memory where
  bytes : Vector UInt8 4096
  deriving DecidableEq

namespace Memory

/-- Where programs are loaded; everything below belongs to the interpreter. -/
abbrev programStart : Nat := 0x200

/-- The highest address an instruction can be fetched from, as a fetch reads two bytes. -/
abbrev lastFetch : Nat := 0xFFE

abbrev maxProgramSize : Nat := 3584

/-- The bytes of one glyph, one per row of pixels. -/
abbrev glyphSize : UInt16 := 5

/-- The glyphs of the digits `0` to `F`, five rows each. -/
def font : Vector UInt8 80 := #v[
  0xF0, 0x90, 0x90, 0x90, 0xF0,
  0x20, 0x60, 0x20, 0x20, 0x70,
  0xF0, 0x10, 0xF0, 0x80, 0xF0,
  0xF0, 0x10, 0xF0, 0x10, 0xF0,
  0x90, 0x90, 0xF0, 0x10, 0x10,
  0xF0, 0x80, 0xF0, 0x10, 0xF0,
  0xF0, 0x80, 0xF0, 0x90, 0xF0,
  0xF0, 0x10, 0x20, 0x40, 0x40,
  0xF0, 0x90, 0xF0, 0x90, 0xF0,
  0xF0, 0x90, 0xF0, 0x10, 0xF0,
  0xF0, 0x90, 0xF0, 0x90, 0x90,
  0xE0, 0x90, 0xE0, 0x90, 0xE0,
  0xF0, 0x80, 0x80, 0x80, 0xF0,
  0xE0, 0x90, 0x90, 0x90, 0xE0,
  0xF0, 0x80, 0xF0, 0x80, 0xF0,
  0xF0, 0x80, 0xF0, 0x80, 0x80]

/-- Memory that holds the font and nothing else. -/
def blank : Memory :=
  ⟨tabulate fun a => if h : a.val < 80 then font[a.val] else 0⟩

def read (m : Memory) (a : Nat) : UInt8 :=
  m.bytes[Address.lowest a]

def write (m : Memory) (a : Nat) (b : UInt8) : Memory :=
  ⟨m.bytes.set (Address.lowest a) b⟩

/-- The big-endian word at an address; its second byte may lie at address zero. -/
def word (m : Memory) (a : Nat) : UInt16 :=
  UInt16.ofNat ((m.read a).toNat * 256 + (m.read (a + 1)).toNat)

/-- The `n` bytes from an address on. -/
def block (m : Memory) (a n : Nat) : List UInt8 :=
  (List.range n).map fun r => m.read (a + r)

def store (m : Memory) (a : Nat) : List UInt8 → Memory
  | [] => m
  | b :: bs => (m.write a b).store (a + 1) bs

/-- Puts a program at the start of program memory and zeros after it, to the end of memory. What
lies below the program is kept. -/
def install (m : Memory) (program : Array UInt8) : Except Oversize Memory :=
  if program.size ≤ maxProgramSize then
    .ok ⟨tabulate fun a =>
      if a.val < programStart then m.bytes[a.val] else program.getD (a.val - programStart) 0⟩
  else
    .error ⟨program.size⟩

/-- All of memory behind a byte that marks the frame as a memory dump. -/
def debugFrame (m : Memory) : Vector UInt8 4097 :=
  Vector.append #v[0xFF] m.bytes

theorem read_congr (m : Memory) {a c : Nat} (h : a % 4096 = c % 4096) : m.read a = m.read c := by
  simp only [read, Address.lowest_eq_iff.2 h]

theorem read_write (m : Memory) (a c : Nat) (b : UInt8) :
    (m.write a b).read c = if a % 4096 = c % 4096 then b else m.read c := by
  simp [read, write, Vector.getElem_set, Address.val_lowest]

end Memory

/-- What the loader reports. -/
def Oversize.message (o : Oversize) : String :=
  s!"ROM is {o.size} bytes, but at most {Memory.maxProgramSize} bytes fit in memory"

end ChipEight
