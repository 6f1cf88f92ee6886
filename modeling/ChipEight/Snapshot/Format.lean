/-!
# Binary formats

A format writes a value as bytes and reads a value back from the front of a list of bytes, leaving
the bytes after it. Formats are built from bytes by a few combinators: numbers stand with their
lowest byte first at a fixed width, flags take a byte that is zero or one, and the parts of a
value follow each other without padding. Reading fails at the first thing that is wrong.
-/

namespace ChipEight.Snapshot

inductive Malformed where
  /-- The bytes end before the value does. -/
  | endOfInput
  /-- A flag is neither zero nor one. -/
  | badFlag (byte : UInt8)
  /-- A choice between `count` alternatives names none of them. -/
  | badChoice (index : UInt32) (count : Nat)
  deriving Repr, DecidableEq

def Malformed.message (e : Malformed) : String :=
  "Failed to deserialize Chip8 instance from file.: " ++
    match e with
    | endOfInput => "io error: unexpected end of file"
    | badFlag byte => s!"invalid u8 while decoding bool, expected 0 or 1, found {byte}"
    | badChoice index count =>
      s!"invalid value: integer `{index}`, expected variant index 0 <= i < {count}"

/-- A writer, and a reader of what stands in front. -/
structure Format (α : Type) where
  write : α → List UInt8
  read : List UInt8 → Except Malformed (α × List UInt8)

namespace Format

variable {α β : Type}

def byte : Format UInt8 where
  write b := [b]
  read
    | [] => .error .endOfInput
    | b :: rest => .ok (b, rest)

/-- Two values, one after the other. -/
def pair (f : Format α) (g : Format β) : Format (α × β) where
  write p := f.write p.1 ++ g.write p.2
  read bytes := do
    let (a, rest) ← f.read bytes
    let (b, rest) ← g.read rest
    return ((a, b), rest)

/-- The same bytes under another type. -/
def iso (f : Format α) (wrap : α → β) (unwrap : β → α) : Format β where
  write b := f.write (unwrap b)
  read bytes := do
    let (a, rest) ← f.read bytes
    return (wrap a, rest)

/-- Bytes that stand for a value only if `wrap` says for which. -/
def refine (f : Format α) (wrap : α → Except Malformed β) (unwrap : β → α) : Format β where
  write b := f.write (unwrap b)
  read bytes := do
    let (a, rest) ← f.read bytes
    return (← wrap a, rest)

def readVector (f : Format α) :
    (n : Nat) → List UInt8 → Except Malformed (Vector α n × List UInt8)
  | 0, bytes => .ok (#v[], bytes)
  | n + 1, bytes => do
    let (values, rest) ← readVector f n bytes
    let (value, rest) ← f.read rest
    return (values.push value, rest)

/-- `n` values, one after the other. -/
def vector (f : Format α) (n : Nat) : Format (Vector α n) where
  write values := values.toList.flatMap f.write
  read := readVector f n

/-- The lowest `width` bytes of a number, lowest first. -/
def littleEndian : Nat → Nat → List UInt8
  | 0, _ => []
  | width + 1, n => UInt8.ofNat n :: littleEndian width (n / 256)

/-- The number whose bytes are given, lowest first. -/
def ofLittleEndian : List UInt8 → Nat
  | [] => 0
  | b :: bytes => b.toNat + 256 * ofLittleEndian bytes

def natural (width : Nat) : Format Nat where
  write n := littleEndian width n
  read bytes :=
    if width ≤ bytes.length then
      .ok (ofLittleEndian (bytes.take width), bytes.drop width)
    else
      .error .endOfInput

def word16 : Format UInt16 :=
  (natural 2).iso UInt16.ofNat UInt16.toNat

def word32 : Format UInt32 :=
  (natural 4).iso UInt32.ofNat UInt32.toNat

def word64 : Format UInt64 :=
  (natural 8).iso UInt64.ofNat UInt64.toNat

def word128 : Format (BitVec 128) :=
  (natural 16).iso (BitVec.ofNat 128) BitVec.toNat

/-- A byte that is zero or one. -/
def flag : Format Bool :=
  byte.refine
    (fun b => if b = 0 then .ok false else if b = 1 then .ok true else .error (.badFlag b))
    (fun b => if b then 1 else 0)

/-- A number of eight bytes that tells how many bytes follow, and those bytes. -/
def bytes : Format (Array UInt8) where
  write data := word64.write (UInt64.ofNat data.size) ++ data.toList
  read bytes := do
    let (size, rest) ← word64.read bytes
    if size.toNat ≤ rest.length then
      return ((rest.take size.toNat).toArray, rest.drop size.toNat)
    else
      throw .endOfInput

end Format
end ChipEight.Snapshot
