import ChipEight.Session.Basic

/-!
# Scripted sessions

A session whose time follows a list: before each round the time moves by the next entry, and the
run ends for lack of time when a round finds none. Frames go to a recorder, which may be told to
drop them all or to fail at one of them.
-/

namespace ChipEight

structure Recorder where
  /-- Whether frames are kept; if not they are dropped, and nothing can fail. -/
  keeps : Bool
  /-- Which frame, counting from one, cannot be written; `0` if all can. -/
  failAt : Nat
  frames : Array Frame
  flushes : Nat

namespace Recorder

def empty (keeps : Bool) (failAt : Nat) : Recorder where
  keeps := keeps
  failAt := failAt
  frames := #[]
  flushes := 0

/-- Writes a frame and flushes. There is no result if the frame cannot be written. -/
def publish (r : Recorder) (frame : Frame) : Option Recorder :=
  if !r.keeps then some r
  else if r.frames.size + 1 = r.failAt then none
  else some { r with frames := r.frames.push frame, flushes := r.flushes + 1 }

/-- Writes frames up to the first that cannot be written, and tells whether all could. -/
def publishAll (r : Recorder) : List Frame → Recorder × Bool
  | [] => (r, true)
  | frame :: frames =>
    match r.publish frame with
    | some r => r.publishAll frames
    | none => (r, false)

end Recorder

inductive Ending where
  | done
  | timeExhausted
  | faulted (fault : Fault)
  | sinkFailed
  deriving Repr, DecidableEq

structure Script where
  session : Session
  time : Reading
  entropy : List UInt8
  recorder : Recorder
  events : Array Event

namespace Script

/-- A scripted session of a machine, whose time starts at zero. -/
def start (machine : Machine) (maxSteps : UInt64) (entropy : List UInt8) (recorder : Recorder) :
    Script :=
  let session := Session.start (machine.attach 0) maxSteps
  { session, time := 0, entropy, recorder, events := #[session.opening] }

/-- One round, after moving the time. There is an ending if the round was the last. -/
def turn (t : Script) (delta : Nat) : Script × Option Ending :=
  let time := t.time.later delta
  let round := t.session.round time t.entropy
  let t : Script :=
    { t with
      session := round.session
      time
      entropy := round.entropy
      events := t.events ++ round.events }
  match round.frames with
  | .error fault => (t, some (.faulted fault))
  | .ok frames =>
    match t.recorder.publishAll frames with
    | (recorder, true) => ({ t with recorder }, none)
    | (recorder, false) => ({ t with recorder }, some .sinkFailed)

/-- Rounds until the session is done, fails or runs out of time. -/
def run (t : Script) (deltas : List Nat) : Script × Ending :=
  if t.session.isDone then
    ({ t with events := t.events.push t.session.closing }, .done)
  else
    match deltas with
    | [] => (t, .timeExhausted)
    | delta :: deltas =>
      match t.turn delta with
      | (t, none) => t.run deltas
      | (t, some ending) => (t, ending)

end Script
end ChipEight
