import ChipEight.Session.Script
import ChipEight.Snapshot.Basic

/-!
# The rig

A machine on the bench: a time source that moves only when told to, a queue of random bytes, and
handles by which keys are pressed from elsewhere. Everything a host can ask of a machine is a
`Request`, and `Rig.apply` answers it, so a history is a list of requests.

A handle names the keypad it was taken from. Loading and resetting keep the keypad of a machine;
restoring replaces the machine and its keypad, and the handles taken before act on nothing any
more.
-/

namespace ChipEight

/-- A means to press keys without going through the machine. -/
structure Handle where
  keypad : Nat
  deriving Repr, DecidableEq

/-- A machine with its surroundings. -/
structure Rig where
  machine : Machine
  /-- What the time source reads. -/
  now : Reading
  /-- The random bytes that are left. -/
  entropy : List UInt8
  /-- How many keypads there were before the one in use. -/
  keypad : Nat

inductive Request where
  | load (program : Array UInt8)
  | reset
  | press (code : UInt8)
  | release (code : UInt8)
  | pressBy (handle : Handle) (code : UInt8)
  | releaseBy (handle : Handle) (code : UInt8)
  | isHeld (code : UInt8)
  | step
  | run (n : Nat)
  | update
  | wait (nanos : Nat)
  /-- Counts time from a new source with the given reading. -/
  | attach (start : Reading)
  | advanceClock
  | resetClock
  | tick (n : UInt8)
  | displayFrame
  | debugFrame
  | beginWait
  | takePress
  | releaseAll
  | save
  | restore (bytes : List UInt8)
  /-- Drives the machine through a scripted session. -/
  | drive (maxSteps : UInt64) (deltas : List Nat) (recorder : Recorder)

inductive Reply where
  | done
  | oversize (cause : Oversize)
  | fault (cause : Fault)
  | ran (completed : Nat) (fault : Option Fault)
  | count (n : Nat)
  | truth (b : Bool)
  | key (key : Option Digit)
  | frame (frame : Frame)
  | state (bytes : List UInt8)
  | malformed (cause : Snapshot.Malformed)
  | drove (ending : Ending) (executed : UInt64) (recorder : Recorder)

/-- The answer to a request, the rig after it, and what was reported meanwhile. -/
structure Response where
  reply : Reply
  rig : Rig
  events : List Event

namespace Rig

/-- A fresh machine at the start of time. -/
def start (rate : UInt32) (dialect : Dialect) (now : Reading) (entropy : List UInt8) : Rig where
  machine := .fresh rate dialect now
  now := now
  entropy := entropy
  keypad := 0

def handle (r : Rig) : Handle :=
  ⟨r.keypad⟩

def withMachine (r : Rig) (machine : Machine) : Rig :=
  { r with machine }

/-- Changes the keypad through a handle, if the handle is one on the keypad in use. -/
def throughHandle (r : Rig) (h : Handle) (change : Keypad → Keypad) : Rig :=
  if h.keypad = r.keypad then
    r.withMachine { r.machine with keypad := change r.machine.keypad }
  else
    r

def quiet (r : Rig) (reply : Reply) : Response :=
  ⟨reply, r, []⟩

/-- Takes over what a run has come to. -/
def afterRun (r : Rig) (run : Run) : Rig :=
  { r with machine := run.machine, entropy := run.entropy }

def apply (r : Rig) (request : Request) : Response :=
  let m := r.machine
  match request with
  | .load program =>
    match m.load r.now program with
    | .ok (machine, events) => ⟨.done, r.withMachine machine, events⟩
    | .error cause => r.quiet (.oversize cause)
  | .reset =>
    let (machine, events) := m.reset r.now
    ⟨.done, r.withMachine machine, events⟩
  | .press code => (r.withMachine (m.press code)).quiet .done
  | .release code => (r.withMachine (m.release code)).quiet .done
  | .pressBy h code => (r.throughHandle h (·.press code)).quiet .done
  | .releaseBy h code => (r.throughHandle h (·.release code)).quiet .done
  | .isHeld code => r.quiet (.truth (m.keypad.isHeld code))
  | .step =>
    let outcome := m.step r.entropy
    let reply := match outcome.fault with
      | some fault => .fault fault
      | none => .done
    ⟨reply, { r with machine := outcome.machine, entropy := outcome.entropy }, outcome.events⟩
  | .run n =>
    let run := m.run r.entropy n
    ⟨.ran run.completed run.fault, r.afterRun run, run.events.toList⟩
  | .update =>
    let run := m.update r.now r.entropy
    let reply := match run.fault with
      | some fault => .fault fault
      | none => .count run.completed
    ⟨reply, r.afterRun run, run.events.toList⟩
  | .wait nanos => { r with now := r.now.later nanos }.quiet .done
  | .attach start => { r with now := start, machine := m.attach start }.quiet .done
  | .advanceClock =>
    (r.withMachine { m with clock := m.clock.advance r.now }).quiet
      (.count (m.clock.stepsDue r.now))
  | .resetClock => (r.withMachine { m with clock := m.clock.reset r.now }).quiet .done
  | .tick n => (r.withMachine { m with clock := m.clock.tick n }).quiet .done
  | .displayFrame =>
    let (frame, machine) := m.displayFrame
    (r.withMachine machine).quiet (.frame (.display frame))
  | .debugFrame => r.quiet (.frame (.debug m.debugFrame))
  | .beginWait => (r.withMachine { m with keypad := m.keypad.beginWait }).quiet .done
  | .takePress =>
    let (key, keypad) := m.keypad.takePress
    (r.withMachine { m with keypad }).quiet (.key key)
  | .releaseAll => (r.withMachine { m with keypad := .idle }).quiet .done
  | .save => r.quiet (.state m.save)
  | .restore bytes =>
    match Machine.restore r.now bytes with
    | .ok machine => { r with machine, keypad := r.keypad + 1 }.quiet .done
    | .error cause => r.quiet (.malformed cause)
  | .drive maxSteps deltas recorder =>
    let (t, ending) := (Script.start m maxSteps r.entropy recorder).run deltas
    ⟨.drove ending t.session.executed t.recorder,
      { r with machine := t.session.machine.attach r.now, entropy := t.entropy },
      t.events.toList⟩

end Rig
end ChipEight
