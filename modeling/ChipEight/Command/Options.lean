import ChipEight.Clock
import ChipEight.Instruction.Basic

/-!
# Command-line options

The words of a command line, read from left to right. An option's value is attached with `=` or is
the next word, which must not look like an option; `-` alone does not. After `--` every word is an
operand. Nothing may be given twice. The first thing that is wrong decides, and so does a call for
help that comes before it.
-/

namespace ChipEight.Command

structure Options where
  rom : Option String
  rate : UInt32
  dialect : Dialect
  /-- How many steps to carry out, `0` for any number. -/
  maxSteps : UInt64
  loadState : Option String
  saveState : Option String
  output : Option String
  /-- How much detail is logged, from `0` for nothing to `5` for everything. -/
  detail : Nat
  deriving Repr, DecidableEq

inductive Stop where
  | help
  | unexpected (word : String)
  | duplicate (name : String)
  | missingValue (name : String)
  | badValue (name value : String)
  deriving Repr, DecidableEq

/-- A word of the command line, by its shape. -/
inductive Word where
  | escape
  | long (name : String) (value : Option String)
  | short (flags : List Char)
  | plain (text : String)
  deriving Repr, DecidableEq

def Word.ofString (s : String) : Word :=
  match s.toList with
  | ['-', '-'] => .escape
  | '-' :: '-' :: rest =>
    let name := String.ofList (rest.takeWhile (· != '='))
    match rest.dropWhile (· != '=') with
    | [] => .long name none
    | _ :: value => .long name (some (String.ofList value))
  | '-' :: c :: rest => .short (c :: rest)
  | _ => .plain s

inductive Setting where
  | rate
  | maxSteps
  | loadState
  | saveState
  | output
  | logLevel
  deriving Repr, DecidableEq

def Setting.ofName? : String → Option Setting
  | "rate" => some rate
  | "max-steps" => some maxSteps
  | "load-state" => some loadState
  | "save-state" => some saveState
  | "output" => some output
  | "log-level" => some logLevel
  | _ => none

inductive Switch where
  | shiftVy
  | incrementIndex
  deriving Repr, DecidableEq

def Switch.ofName? : String → Option Switch
  | "shift-vy" => some shiftVy
  | "increment-index" => some incrementIndex
  | _ => none

/-! ## Values -/

/-- The number that a nonempty row of decimal digits stands for. -/
def digits? (cs : List Char) : Option Nat :=
  if cs.isEmpty || !cs.all Char.isDigit then none
  else some (cs.foldl (fun acc c => acc * 10 + (c.toNat - '0'.toNat)) 0)

/-- A number below `limit`, which may have a plus sign. -/
def number? (limit : Nat) (s : String) : Option Nat :=
  let n? := match s.toList with
    | '+' :: cs => digits? cs
    | cs => digits? cs
  n?.filter (· < limit)

/-- A rate: a number of 32 bits, where zero may have a minus sign. -/
def rate? (s : String) : Option UInt32 :=
  let n? := match s.toList with
    | '-' :: cs => (digits? cs).filter (· == 0)
    | _ => number? 0x100000000 s
  n?.map UInt32.ofNat

/-- The detail that a level's name asks for, in any case. -/
def detail? (s : String) : Option Nat :=
  match String.ofList (s.toList.map Char.toLower) with
  | "off" => some 0
  | "error" => some 1
  | "warn" => some 2
  | "info" => some 3
  | "debug" => some 4
  | "trace" => some 5
  | _ => none

/-- A path: anything but nothing. -/
def path? (s : String) : Option String :=
  if s.isEmpty then none else some s

/-! ## Reading -/

structure Draft where
  rom : Option String
  rate : Option UInt32
  shiftVy : Bool
  incrementIndex : Bool
  maxSteps : Option UInt64
  loadState : Option String
  saveState : Option String
  output : Option String
  detail : Option Nat

namespace Draft

def empty : Draft where
  rom := none
  rate := none
  shiftVy := false
  incrementIndex := false
  maxSteps := none
  loadState := none
  saveState := none
  output := none
  detail := none

/-- A value for something that has none yet. -/
def once {α : Type} (name value : String) (old new : Option α) : Except Stop (Option α) :=
  match old, new with
  | none, some a => .ok (some a)
  | some _, some _ => .error (.duplicate name)
  | _, none => .error (.badValue name value)

def set (d : Draft) (name value : String) : Setting → Except Stop Draft
  | .rate => do return { d with rate := ← once name value d.rate (rate? value) }
  | .maxSteps => do
    let steps := (number? 0x10000000000000000 value).map UInt64.ofNat
    return { d with maxSteps := ← once name value d.maxSteps steps }
  | .loadState => do return { d with loadState := ← once name value d.loadState (path? value) }
  | .saveState => do return { d with saveState := ← once name value d.saveState (path? value) }
  | .output => do return { d with output := ← once name value d.output (path? value) }
  | .logLevel => do return { d with detail := ← once name value d.detail (detail? value) }

def turnOn (d : Draft) (name : String) : Switch → Except Stop Draft
  | .shiftVy =>
    if d.shiftVy then .error (.duplicate name) else .ok { d with shiftVy := true }
  | .incrementIndex =>
    if d.incrementIndex then .error (.duplicate name) else .ok { d with incrementIndex := true }

/-- Takes the operand, of which there is at most one. -/
def operand (d : Draft) (word : String) : Except Stop Draft :=
  match d.rom, path? word with
  | none, some path => .ok { d with rom := some path }
  | some _, _ => .error (.unexpected word)
  | none, none => .error (.badValue "rom" word)

/-- Takes words that are operands whatever they look like. -/
def operands (d : Draft) : List String → Except Stop Draft
  | [] => .ok d
  | word :: rest => do (← d.operand word).operands rest

def read (d : Draft) : List String → Except Stop Draft
  | [] => .ok d
  | word :: rest =>
    match Word.ofString word with
    | .escape => d.operands rest
    | .plain text => do (← d.operand text).read rest
    | .short flags => if flags.head? = some 'h' then .error .help else .error (.unexpected word)
    | .long name value? =>
      match Setting.ofName? name, Switch.ofName? name, value? with
      | some setting, _, some value => do (← d.set name value setting).read rest
      | some setting, _, none =>
        match rest with
        | [] => .error (.missingValue name)
        | value :: rest =>
          match Word.ofString value with
          | .plain value => do (← d.set name value setting).read rest
          | _ => .error (.missingValue name)
      | none, some switch, none => do (← d.turnOn name switch).read rest
      | none, none, none => if name = "help" then .error .help else .error (.unexpected word)
      | none, _, some _ => .error (.unexpected word)

/-- The options, with what was not given at its default. -/
def options (d : Draft) : Options where
  rom := d.rom
  rate := d.rate.getD Clock.defaultRate
  dialect := { shiftsY := d.shiftVy, advancesIndex := d.incrementIndex }
  maxSteps := d.maxSteps.getD 0
  loadState := d.loadState
  saveState := d.saveState
  output := d.output
  detail := d.detail.getD 3

end Draft

/-- The options that a command line stands for. -/
def Options.parse (words : List String) : Except Stop Options :=
  (Draft.empty.read words).map Draft.options

def helpText : String :=
  "\n".intercalate [
    "Run a CHIP-8 program and publish its frames",
    "",
    "Usage: chip8-run [OPTIONS] [ROM]",
    "",
    "Arguments:",
    "  [ROM]  ROM to run. Not needed with --load-state",
    "",
    "Options:",
    "      --rate <RATE>          Instructions executed per second, at most 1000 [default: 500]",
    "      --shift-vy             Shift Vy into Vx in 8xy6/8xyE",
    "      --increment-index      Advance I past the registers transferred by Fx55/Fx65",
    "      --max-steps <STEPS>    Stop after this many instructions [default: 0, for no limit]",
    "      --load-state <FILE>    Resume from a saved state instead of loading a ROM",
    "      --save-state <FILE>    Save the machine state here when the run ends",
    "      --output <FILE>        Write frames to this file, or to stdout for \"-\"",
    "      --log-level <LEVEL>    off, error, warn, info, debug or trace [default: info]",
    "  -h, --help                 Print help"]

def Stop.message : Stop → String
  | help => helpText
  | unexpected word => "error: unexpected argument '" ++ word ++ "' found"
  | duplicate name => "error: the argument '--" ++ name ++ "' cannot be used multiple times"
  | missingValue name => "error: a value is required for '--" ++ name ++ "' but none was supplied"
  | badValue name value => "error: invalid value '" ++ value ++ "' for '" ++ name ++ "'"

def Stop.exitCode : Stop → UInt32
  | help => 0
  | _ => 2

end ChipEight.Command
