import ChipEight.Command.Run

/-!
# The program

Runs the command in the world of the operating system.
-/

namespace ChipEight.Command

/-- The code and the text of a failed operation of the system. -/
def SystemError.ofFailure : IO.Error → SystemError
  | .alreadyExists _ code text => ⟨code.toNat, text⟩
  | .otherError code text => ⟨code.toNat, text⟩
  | .resourceBusy code text => ⟨code.toNat, text⟩
  | .resourceVanished code text => ⟨code.toNat, text⟩
  | .unsupportedOperation code text => ⟨code.toNat, text⟩
  | .hardwareFault code text => ⟨code.toNat, text⟩
  | .unsatisfiedConstraints code text => ⟨code.toNat, text⟩
  | .illegalOperation code text => ⟨code.toNat, text⟩
  | .protocolError code text => ⟨code.toNat, text⟩
  | .timeExpired code text => ⟨code.toNat, text⟩
  | .interrupted _ code text => ⟨code.toNat, text⟩
  | .noFileOrDirectory _ code text => ⟨code.toNat, text⟩
  | .invalidArgument _ code text => ⟨code.toNat, text⟩
  | .permissionDenied _ code text => ⟨code.toNat, text⟩
  | .resourceExhausted _ code text => ⟨code.toNat, text⟩
  | .inappropriateType _ code text => ⟨code.toNat, text⟩
  | .noSuchThing _ code text => ⟨code.toNat, text⟩
  | .unexpectedEof => ⟨0, "unexpected end of file"⟩
  | .userError text => ⟨0, text⟩

/-- An operation of the system, with its failure as a value. -/
def attempt {α : Type} (action : IO α) : IO (Except SystemError α) :=
  tryCatch (return .ok (← action)) fun e => return .error (.ofFailure e)

def emit (stream : IO.FS.Stream) (frame : Frame) : IO (Except SystemError Unit) :=
  attempt do
    stream.write ⟨frame.bytes⟩
    stream.flush

/-- The operating system as surroundings of a command. -/
def operatingSystem : Surroundings IO where
  read path := attempt do
    let file ← IO.FS.Handle.mk path .read
    return (← file.readBinToEnd).toList
  write path bytes := attempt (IO.FS.writeBinFile path ⟨bytes.toArray⟩)
  publisher
    | .standardOutput => return .ok (emit (← IO.getStdout))
    | .file path => attempt do
      return emit (.ofHandle (← IO.FS.Handle.mk path .write))
  now := return UInt64.ofNat (← IO.monoNanosNow)
  pause := IO.sleep 1
  random := do
    match ← attempt (IO.getRandomBytes 1) with
    | .ok bytes => return bytes.toList.head?
    | .error _ => return none
  log e := IO.eprintln e.line

/-- More rounds than any run lives to see. -/
def roundsOfProgram : Nat := 4611686018427387904

end ChipEight.Command

open ChipEight.Command

def main (words : List String) : IO UInt32 := do
  match Options.parse words with
  | .ok options => run operatingSystem roundsOfProgram options
  | .error stop =>
    match stop with
    | .help => IO.println stop.message
    | _ => IO.eprintln stop.message
    return stop.exitCode
