import ChipEight.Command.Options
import ChipEight.Command.Surroundings
import ChipEight.Snapshot.Basic

/-!
# The command

Builds a machine from a program or a saved state, drives it until its step limit or a failure, and
saves it if asked to. The state is saved whatever ended the run, except when the machine broke
down.

A run that neither reaches a limit nor fails would go on for ever, so a bound on the number of
rounds is part of the call; the command itself passes one that no run lives to see.
-/

namespace ChipEight.Command

inductive Failure where
  /-- Neither a program nor a saved state was named. -/
  | nothingToRun
  | romUnreadable (path : String) (cause : SystemError)
  | system (cause : SystemError)
  | oversize (cause : Oversize)
  | malformed (cause : Snapshot.Malformed)
  | fault (cause : Fault)
  deriving Repr, DecidableEq

namespace Failure

def message : Failure → String
  | nothingToRun => "either a ROM or --load-state is required"
  | romUnreadable path cause => "Failed to read ROM from " ++ path ++ ": " ++ cause.message
  | system cause => cause.message
  | oversize cause => cause.message
  | malformed cause => cause.message
  | fault cause => cause.message

/-- The exit code: 2 when the machine halted, 101 when it broke down, else 1. -/
def exitCode : Failure → UInt32
  | fault (.halted _) => 2
  | fault .stackOutOfRange => 101
  | _ => 1

/-- Whether the machine broke down, which ends the command on the spot. -/
def isBreakdown : Failure → Bool
  | fault .stackOutOfRange => true
  | _ => false

end Failure

section
variable {m : Type → Type} [Monad m]

/-- Reports the events that the wanted detail admits. -/
@[specialize] def report (env : Surroundings m) (detail : Nat) (events : List Event) : m Unit :=
  events.forM fun e => if e.level.detail ≤ detail then env.log e else pure ()

/-- Writes frames up to the first that cannot be written. -/
@[specialize] def publishAll (publish : Frame → m (Except SystemError Unit)) :
    List Frame → m (Except SystemError Unit)
  | [] => return .ok ()
  | frame :: frames => do
    match ← publish frame with
    | .ok () => publishAll publish frames
    | .error cause => return .error cause

/-- The random bytes for the next step of a machine: one is asked for if the step takes one, and no
sooner. -/
@[specialize] def supply (env : Surroundings m) (machine : Machine) : m (List UInt8) :=
  if machine.takesRandom then Option.toList <$> env.random else return []

/-- `Run.steps` with the random bytes of the surroundings. -/
@[specialize] def steps (env : Surroundings m) : Nat → Run → m Run
  | 0, r => return r
  | n + 1, r =>
    if r.fault.isSome then return r
    else do
      let entropy ← supply env r.machine
      steps env n { r with entropy }.step

/-- `Machine.update` with the random bytes of the surroundings. -/
@[specialize] def update (env : Surroundings m) (machine : Machine) (now : Reading) : m Run :=
  steps env (machine.clock.stepsDue now)
    (.start { machine with clock := machine.clock.advance now } [])

/-- Rounds of a session until it is done or fails. -/
@[specialize] def drive (env : Surroundings m) (detail : Nat)
    (publish : Frame → m (Except SystemError Unit)) (rounds : Nat) (session : Session) :
    m (Session × Except Failure Unit) := do
  if session.isDone then
    report env detail [session.closing]
    return (session, .ok ())
  match rounds with
  | 0 => return (session, .ok ())
  | rounds + 1 =>
    let run ← update env session.machine (← env.now)
    let round := session.conclude run
    report env detail round.events.toList
    match round.frames with
    | .error fault => return (round.session, .error (.fault fault))
    | .ok frames =>
      match ← publishAll publish frames with
      | .error cause => return (round.session, .error (.system cause))
      | .ok () =>
        if frames.isEmpty then env.pause
        drive env detail publish rounds round.session

@[specialize] def prepare (env : Surroundings m) (o : Options) : m (Except Failure Machine) := do
  match o.loadState, o.rom with
  | some path, _ =>
    report env o.detail [.restoring path]
    match ← env.read path with
    | .error cause => return .error (.system cause)
    | .ok bytes => return (Machine.restore (← env.now) bytes).mapError Failure.malformed
  | none, some path =>
    match ← env.read path with
    | .error cause => return .error (.romUnreadable path cause)
    | .ok bytes =>
      let now ← env.now
      match (Machine.fresh o.rate o.dialect now).load now bytes.toArray with
      | .error cause => return .error (.oversize cause)
      | .ok (machine, events) =>
        report env o.detail (events ++ [.programLoaded path])
        return .ok machine
  | none, none => return .error .nothingToRun

/-- The means to write frames that the options ask for; without a destination they are dropped. -/
@[specialize] def openOutput (env : Surroundings m) :
    Option String → m (Except SystemError (Frame → m (Except SystemError Unit)))
  | none => return .ok fun _ => return .ok ()
  | some "-" => env.publisher .standardOutput
  | some path => env.publisher (.file path)

/-- Saves the machine if asked to. That it cannot be saved is reported and nothing more. -/
@[specialize] def saveState (env : Surroundings m) (o : Options) (machine : Machine) : m Unit := do
  match o.saveState with
  | none => return ()
  | some path =>
    match ← env.write path machine.save with
    | .ok () => report env o.detail [.saved path]
    | .error cause => report env o.detail [.saveFailed path cause.message]

@[specialize] def perform (env : Surroundings m) (rounds : Nat) (o : Options) :
    m (Except Failure Unit) := do
  match ← prepare env o with
  | .error failure => return .error failure
  | .ok machine =>
    match ← openOutput env o.output with
    | .error cause => return .error (.system cause)
    | .ok publish =>
      let session := Session.start machine o.maxSteps
      report env o.detail [session.opening]
      let (session, result) ← drive env o.detail publish rounds session
      match result with
      | .error failure =>
        if !failure.isBreakdown then saveState env o session.machine
        return .error failure
      | .ok () =>
        saveState env o session.machine
        return .ok ()

/-- Carries out what the options ask for, reports why it failed and gives the exit code. -/
@[specialize] def run (env : Surroundings m) (rounds : Nat) (o : Options) : m UInt32 := do
  match ← perform env rounds o with
  | .ok () => return 0
  | .error failure =>
    if !failure.isBreakdown then report env o.detail [.failed failure.message]
    return failure.exitCode

end
end ChipEight.Command
