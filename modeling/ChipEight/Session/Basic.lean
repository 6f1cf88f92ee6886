import ChipEight.Machine.Run

/-!
# Sessions

A session drives a machine by rounds. Each round brings the machine up to date with the time; if
any step was carried out, the round has two frames to publish, the display and after it the
memory, and the steps are counted. A session with a step limit is done once the count has reached
it.
-/

namespace ChipEight

inductive Frame where
  | display (bytes : Vector UInt8 257)
  | debug (bytes : Vector UInt8 4097)
  deriving DecidableEq

def Frame.bytes : Frame → Array UInt8
  | display bytes => bytes.toArray
  | debug bytes => bytes.toArray

/-- A machine that is driven, how many steps it may carry out (`0` for any number), and how many
it has. -/
structure Session where
  machine : Machine
  maxSteps : UInt64
  executed : UInt64

/-- What a round leads to. If the machine has faulted there is nothing to publish. -/
structure Round where
  session : Session
  entropy : List UInt8
  events : Array Event
  frames : Except Fault (List Frame)

namespace Session

def start (machine : Machine) (maxSteps : UInt64) : Session where
  machine := machine
  maxSteps := maxSteps
  executed := 0

def isDone (s : Session) : Bool :=
  s.maxSteps != 0 && s.maxSteps ≤ s.executed

/-- What a round leads to, by the run that brought the machine up to date. The steps of a run that
ended in a fault are not counted. -/
def conclude (s : Session) (run : Run) : Round :=
  match run.fault with
  | some fault => ⟨{ s with machine := run.machine }, run.entropy, run.events, .error fault⟩
  | none =>
    if run.completed = 0 then
      ⟨{ s with machine := run.machine }, run.entropy, run.events, .ok []⟩
    else
      let (display, machine) := run.machine.displayFrame
      let executed := s.executed + UInt64.ofNat run.completed
      ⟨{ s with machine, executed }, run.entropy, run.events,
        .ok [.display display, .debug machine.debugFrame]⟩

/-- Brings the machine up to date with the time. -/
def round (s : Session) (now : Reading) (entropy : List UInt8) : Round :=
  s.conclude (s.machine.update now entropy)

/-- The event that opens a run. -/
def opening (s : Session) : Event :=
  .running s.machine.clock.rate

/-- The event that closes a run which has reached its step limit. -/
def closing (s : Session) : Event :=
  .stopped s.executed

end Session
end ChipEight
