import ChipEight.Machine.Basic

/-!
# One instruction

`Machine.execute` carries out an instruction and `Machine.step` fetches the word at the program
counter and carries out what it stands for. A word that stands for nothing, a call on a full stack
and a return on an empty one are reported and passed over; a step fails only where a `Fault` says
so. A machine that halts stays as it was. One that breaks down keeps what its last instruction has
come to: the word is on record, and a return has moved the stack pointer.

Random bytes come from a queue that the host supplies; when it is empty, zero takes their place.
-/

namespace ChipEight

structure Effect where
  machine : Machine
  entropy : List UInt8
  events : List Event

/-- The effect of an instruction that changes nothing but registers. -/
def Effect.ofRegisters (m : Machine) (entropy : List UInt8) (r : Registers) : Effect :=
  ⟨{ m with registers := r }, entropy, []⟩

/-- The effect of a call or a return, or what is left of the machine when it breaks off. -/
def Effect.ofStack (m : Machine) (entropy : List UInt8) :
    Except Registers Registers → Except Machine Effect
  | .ok r => .ok (.ofRegisters m entropy r)
  | .error r => .error { m with registers := r }

structure Outcome where
  fault : Option Fault
  machine : Machine
  entropy : List UInt8
  events : List Event

namespace Machine

/-- Draws the sprite of `n` rows at the index, at column `Vx` and row `Vy`, and leaves in the flag
register whether a lit pixel went off. -/
def drawSprite (m : Machine) (x y : Reg) (n : Digit) : Machine :=
  let r := m.registers
  let (screen, hit) := m.screen.drawSprite (r.get x % 64).toUInt64 (r.get y % 32).toUInt64
    (m.memory.block r.i.toNat n.val)
  { m with screen, registers := (r.put .flag (if hit then 1 else 0)).next }

/-- Parks the program the first time, and takes the latched key press from then on. -/
def awaitKey (m : Machine) (entropy : List UInt8) (x : Reg) : Effect :=
  let r := m.registers
  match r.mode with
  | .running =>
    ⟨{ m with keypad := m.keypad.beginWait, registers := { r with mode := .awaitingKey } },
      entropy, [.awaitingKey x]⟩
  | .awaitingKey =>
    match m.keypad.takePress with
    | (some key, keypad) =>
      let received := { r with mode := .running }.put x (UInt8.ofNat key.val)
      ⟨{ m with keypad, registers := received.next }, entropy, [.keyTaken key x]⟩
    | (none, keypad) => ⟨{ m with keypad }, entropy, []⟩

/-- The three decimal digits of a byte, the hundreds first. -/
def decimalDigits (b : UInt8) : List UInt8 :=
  [b / 100, b / 10 % 10, b % 10]

/-- Carries out an instruction. Where a call or a return reaches past the stack there is no effect,
only what is left of the machine. -/
def execute (m : Machine) (entropy : List UInt8) (instruction : Instruction) :
    Except Machine Effect :=
  let r := m.registers
  let only := Effect.ofRegisters m entropy
  match instruction with
  | .clearScreen => .ok ⟨{ m with screen := m.screen.clear, registers := r.next }, entropy, []⟩
  | .ret =>
    if r.sp = 0 then
      .ok ⟨{ m with registers := r.next }, entropy, [.stackUnderflow r.pc]⟩
    else
      Effect.ofStack m entropy r.ret
  | .jump nnn => .ok (only (r.jump (UInt64.ofNat nnn.val)))
  | .call nnn =>
    if r.sp = 16 then
      .ok ⟨{ m with registers := r.next }, entropy, [.stackOverflow nnn r.pc]⟩
    else
      Effect.ofStack m entropy (r.call (UInt64.ofNat nnn.val))
  | .skipIfByte x nn => .ok (only (r.skipIf (r.get x == nn)))
  | .skipUnlessByte x nn => .ok (only (r.skipIf (r.get x != nn)))
  | .skipIfSame x y => .ok (only (r.skipIf (r.get x == r.get y)))
  | .skipUnlessSame x y => .ok (only (r.skipIf (r.get x != r.get y)))
  | .setByte x nn => .ok (only (r.put x nn).next)
  | .addByte x nn => .ok (only (r.put x (r.get x + nn)).next)
  | .alu op x y =>
    .ok (only (r.putFlagged x (op.eval r.dialect (r.get x) (r.get y))).next)
  | .setIndex nnn => .ok (only { r with i := UInt16.ofNat nnn.val }.next)
  | .jumpBy nnn => .ok (only (r.jump (UInt64.ofNat nnn.val + (r.get .first).toUInt64)))
  | .random x nn =>
    .ok ⟨{ m with registers := (r.put x (entropy.headD 0 &&& nn)).next }, entropy.tail,
      if entropy.isEmpty then [.noEntropy] else []⟩
  | .draw x y n => .ok ⟨m.drawSprite x y n, entropy, []⟩
  | .skipIfHeld x => .ok (only (r.skipIf (m.keypad.isHeld (r.get x))))
  | .skipUnlessHeld x => .ok (only (r.skipIf (!m.keypad.isHeld (r.get x))))
  | .readDelay x => .ok (only (r.put x m.clock.delay).next)
  | .awaitKey x => .ok (m.awaitKey entropy x)
  | .setDelay x =>
    .ok ⟨{ m with clock := { m.clock with delay := r.get x }, registers := r.next }, entropy, []⟩
  | .setSound x =>
    .ok ⟨{ m with clock := { m.clock with sound := r.get x }, registers := r.next }, entropy, []⟩
  | .addIndex x => .ok (only { r with i := r.i + (r.get x).toUInt16 }.next)
  | .pointGlyph x => .ok (only { r with i := (r.get x % 16).toUInt16 * Memory.glyphSize }.next)
  | .storeDecimal x =>
    .ok ⟨{ m with
      memory := m.memory.store r.i.toNat (decimalDigits (r.get x))
      registers := r.next }, entropy, []⟩
  | .storeRegisters x =>
    .ok ⟨{ m with
      memory := m.memory.store r.i.toNat (r.upTo x)
      registers := (r.advanceIndex (x.val + 1)).next }, entropy, []⟩
  | .loadRegisters x =>
    let loaded := r.putUpTo x fun k => m.memory.read (r.i.toNat + k)
    .ok (only (loaded.advanceIndex (x.val + 1)).next)

def fetchable (pc : UInt64) : Bool :=
  Memory.programStart ≤ pc.toNat && pc.toNat ≤ Memory.lastFetch

/-- Whether the next step takes a random byte: if it carries out an instruction with a mask. -/
def takesRandom (m : Machine) : Bool :=
  fetchable m.registers.pc &&
    ((Instruction.ofWord? (m.memory.word m.registers.pc.toNat)).bind Instruction.mask?).isSome

/-- Fetches the word at the program counter and carries it out. -/
def step (m : Machine) (entropy : List UInt8) : Outcome :=
  let pc := m.registers.pc
  if fetchable pc then
    let word := m.memory.word pc.toNat
    let fetched := { m with registers := m.registers.record word }
    let effect := match Instruction.ofWord? word with
      | some instruction => fetched.execute entropy instruction
      | none =>
        .ok ⟨{ fetched with registers := fetched.registers.next }, entropy, [.undocumented word]⟩
    match effect with
    | .ok effect => ⟨none, effect.machine, effect.entropy, .fetched pc word :: effect.events⟩
    | .error broken => ⟨some .stackOutOfRange, broken, entropy, [.fetched pc word]⟩
  else
    ⟨some (.halted pc), m, entropy, [.outOfBounds pc]⟩

end Machine
end ChipEight
