import ChipEight.Event
import ChipEight.Session.Basic

/-!
# Surroundings

What a command needs from the world it runs in, as a record of operations: files, the time, random
bytes and a log. A command is written against this record, so it runs against the operating system
and against a model of it alike.
-/

namespace ChipEight.Command

structure SystemError where
  code : Nat
  text : String
  deriving Repr, DecidableEq

namespace SystemError

def message (e : SystemError) : String :=
  s!"{e.text} (os error {e.code})"

def notFound : SystemError := ⟨2, "No such file or directory"⟩

def notDirectory : SystemError := ⟨20, "Not a directory"⟩

def isDirectory : SystemError := ⟨21, "Is a directory"⟩

def noSpace : SystemError := ⟨28, "No space left on device"⟩

def nameTooLong : SystemError := ⟨36, "File name too long"⟩

end SystemError

inductive Destination where
  | standardOutput
  | file (path : String)
  deriving Repr, DecidableEq

/-- The operations of the world that a command runs in. -/
structure Surroundings (m : Type → Type) where
  read : String → m (Except SystemError (List UInt8))
  write : String → List UInt8 → m (Except SystemError Unit)
  /-- Begins to write frames, and gives the means to write one. -/
  publisher : Destination → m (Except SystemError (Frame → m (Except SystemError Unit)))
  now : m Reading
  /-- Lets a little time pass. -/
  pause : m Unit
  /-- One random byte, unless there is none to be had. -/
  random : m (Option UInt8)
  log : Event → m Unit

end ChipEight.Command
