import ChipEight.Command.Run
import ChipEight.Command.Tree

/-!
# A simulated world

A model of the world that a command runs in: a tree of files, a standard output, a log, and a
clock that moves by a millisecond whenever anyone looks at it or waits. It has no random bytes.
Commands run one after the other share the files. Where they run, and what is there besides files,
is a parameter of such a world.
-/

namespace ChipEight.Command

/-- The directory in which commands run unless a layout says otherwise. -/
def Location.home : Location := ["work", "tmp"]

/-- The layout of a small system: the directories below its root, and the devices. -/
def Layout.usual : Layout where
  home := .home
  others :=
    ["bin", "dev", "etc", "home", "lib", "proc", "root", "sys", "tmp", "usr", "var"].map ([·])
  devices :=
    [(["null", "dev"], .null), (["full", "dev"], .full), (["stdin", "dev"], .null),
      (["stdout", "dev"], .standardOutput)]

structure Simulation where
  tree : Tree
  standardOutput : Contents
  log : Array Event
  time : Reading

namespace Simulation

/-- A world of a layout, with the given files in the directory in which commands run. -/
def ofLayout (layout : Layout) (files : List (String × Contents)) : Simulation where
  tree := ⟨layout, files.map fun (name, contents) => (name :: layout.home, contents)⟩
  standardOutput := .empty
  log := #[]
  time := 0

def ofFiles (files : List (String × Contents)) : Simulation :=
  ofLayout .usual files

/-- The world for the next command: the files and the clock stay. -/
def next (s : Simulation) : Simulation :=
  { s with standardOutput := .empty, log := #[] }

/-- What a file in the directory in which commands run holds, if there is one of that name. -/
def file? (s : Simulation) (name : String) : Option Contents :=
  s.tree.file? (name :: s.tree.layout.home)

/-- The clock moves by a millisecond. -/
def pass (s : Simulation) : Simulation :=
  { s with time := s.time.later 1000000 }

def print (s : Simulation) (bytes : Array UInt8) : Simulation :=
  { s with standardOutput := s.standardOutput.append bytes }

/-- Creates a file, or makes the one that is there empty. -/
def create (path : String) : StateM Simulation (Except SystemError Location) := do
  match (← get).tree.create path with
  | .error cause => return .error cause
  | .ok l =>
    match (← get).tree.node? l with
    | some (.device _) => return .ok l
    | _ =>
      modify fun s => { s with tree := s.tree.put l .empty }
      return .ok l

def write (l : Location) (bytes : Array UInt8) : StateM Simulation (Except SystemError Unit) := do
  match (← get).tree.node? l with
  | some (.device .null) => return .ok ()
  | some (.device .full) => return .error .noSpace
  | some (.device .standardOutput) =>
    modify fun s => s.print bytes
    return .ok ()
  | _ =>
    modify fun s => { s with tree := s.tree.append l bytes }
    return .ok ()

def printFrame (frame : Frame) : StateM Simulation (Except SystemError Unit) := do
  modify fun s => s.print frame.bytes
  return .ok ()

def writeFrame (l : Location) (frame : Frame) : StateM Simulation (Except SystemError Unit) :=
  write l frame.bytes

/-- The simulated world as surroundings of a command. -/
def surroundings : Surroundings (StateM Simulation) where
  read path := do return ((← get).tree.read path).map (·.bytes.toList)
  write path bytes := do
    match ← create path with
    | .error cause => return .error cause
    | .ok l => write l bytes.toArray
  publisher
    | .standardOutput => return .ok printFrame
    | .file path => do
      match ← create path with
      | .error cause => return .error cause
      | .ok l => return .ok (writeFrame l)
  now := do
    modify pass
    return (← get).time
  pause := modify pass
  random := return none
  log e := modify fun s => { s with log := s.log.push e }

/-- How many rounds a command gets. -/
def maxRounds : Nat := 10000000

def command (words : List String) : StateM Simulation UInt32 :=
  match Options.parse words with
  | .ok options => run surroundings maxRounds options
  | .error stop => return stop.exitCode

end Simulation
end ChipEight.Command
