import ChipEight.Command.Surroundings

/-!
# A tree of files

Directories, devices and files below one root, and the rules by which a path leads through them.
A path is followed name by name, and the first name that leads nowhere decides what is wrong: a
name that is too long, one that is not there, or one below something that is no directory. The
layout of a tree says which directories and devices are there from the start; files are created and
replaced.

`Tree.read` gives what stands at a path and `Tree.create` where a path creates a file. They differ
at a path that ends in a slash. Such a path asks for a directory, so reading tells what stands in
the way of one, while creating a file is refused before the last name is looked up.
-/

namespace ChipEight.Command

/-- What a file holds: the pieces that were written one after the other, the last one first. -/
structure Contents where
  pieces : List (Array UInt8)
  deriving DecidableEq

namespace Contents

def empty : Contents := ⟨[]⟩

def ofArray (bytes : Array UInt8) : Contents := ⟨[bytes]⟩

def append (c : Contents) (bytes : Array UInt8) : Contents := ⟨bytes :: c.pieces⟩

def bytes (c : Contents) : ByteArray :=
  c.pieces.reverse.foldl (fun acc piece => piece.foldl ByteArray.push acc) .empty

end Contents

/-- What is written to without being kept in the tree. Nothing is read from it. -/
inductive Device where
  | null
  | full
  | standardOutput
  deriving Repr, DecidableEq

/-- A place in the tree: the names that lead to it from the root, the last one first. -/
abbrev Location := List String

inductive Node where
  | directory
  | device (device : Device)
  | file (contents : Contents)
  deriving DecidableEq

/-- What can be read there, if it is no directory. -/
def Node.contents : Node → Contents
  | file contents => contents
  | directory | device _ => .empty

/-! ## Paths -/

/-- A path, taken apart at its slashes. -/
structure Path where
  absolute : Bool
  way : List String
  /-- The last name, or the one for the place itself if there is none. -/
  last : String
  slashed : Bool
  deriving Repr, DecidableEq

def Path.maxLength : Nat := 4095

/-- Takes a path apart. Slashes in a row count as one. -/
def Path.ofString (s : String) : Except SystemError Path :=
  let parts := (s.toList.splitOn '/').map String.ofList
  let names := parts.filter (· != "")
  if maxLength < s.utf8ByteSize then
    .error .nameTooLong
  else
    .ok {
      absolute := parts.head? == some ""
      way := names.dropLast
      last := names.getLast?.getD "."
      slashed := parts.getLast? == some "" }

namespace Location

def maxName : Nat := 255

/-- Where a name leads to from a directory. The root lies above itself. -/
def enter (l : Location) (name : String) : Except SystemError Location :=
  if name = "." then .ok l
  else if name = ".." then .ok l.tail
  else if maxName < name.utf8ByteSize then .error .nameTooLong
  else .ok (name :: l)

/-- The path from the root to a location other than the root. -/
def path (l : Location) : String :=
  String.join (l.reverse.map ("/" ++ ·))

end Location

/-! ## The tree -/

/-- What is there besides files. -/
structure Layout where
  /-- The directory in which a path starts that does not start at the root. -/
  home : Location
  /-- The directories other than the root and `home`. -/
  others : List Location
  devices : List (Location × Device)
  deriving DecidableEq

def Layout.directories (layout : Layout) : List Location :=
  [] :: layout.home :: layout.others

structure Tree where
  layout : Layout
  files : List (Location × Contents)

namespace Tree

def node? (t : Tree) (l : Location) : Option Node :=
  if t.layout.directories.contains l then some .directory
  else
    match t.layout.devices.lookup l with
    | some device => some (.device device)
    | none => (t.files.lookup l).map .file

/-- The directory that names lead to from a directory. -/
def descend (t : Tree) : Location → List String → Except SystemError Location
  | l, [] => .ok l
  | l, name :: names =>
    match l.enter name with
    | .error cause => .error cause
    | .ok l =>
      match t.node? l with
      | some .directory => t.descend l names
      | some _ => .error .notDirectory
      | none => .error .notFound

/-- The directory before the last name of a path. -/
def approach (t : Tree) (p : Path) : Except SystemError Location :=
  t.descend (if p.absolute then [] else t.layout.home) p.way

def read (t : Tree) (path : String) : Except SystemError Contents := do
  let p ← Path.ofString path
  let l ← (← t.approach p).enter p.last
  match t.node? l with
  | none => .error .notFound
  | some .directory => .error .isDirectory
  | some node => if p.slashed then .error .notDirectory else .ok node.contents

/-- The location at which a path creates a file, or replaces what is there. -/
def create (t : Tree) (path : String) : Except SystemError Location := do
  let p ← Path.ofString path
  let directory ← t.approach p
  if p.slashed then .error .isDirectory
  else
    let l ← directory.enter p.last
    if t.node? l = some .directory then .error .isDirectory else .ok l

/-- What the file at a location holds, if there is one. -/
def file? (t : Tree) (l : Location) : Option Contents :=
  t.files.lookup l

def put (t : Tree) (l : Location) (contents : Contents) : Tree :=
  { t with files := (l, contents) :: t.files.filter (·.1 != l) }

/-- Puts bytes behind those of the file at a location. -/
def append (t : Tree) (l : Location) (bytes : Array UInt8) : Tree :=
  t.put l (((t.file? l).getD .empty).append bytes)

end Tree
end ChipEight.Command
