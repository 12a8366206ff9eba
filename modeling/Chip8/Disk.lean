/-!
# Disks

A directory with files and further directories in it, and the reading of files by name.  A name is
followed component by component from the directory; the way there is a trail, on which no point and
no cancelled pair of components is left, so that all names of one place lead to one trail.

Reading fails for the first component that cannot be followed: because what comes before it is no
directory, because it is too long, or because there is nothing of that name.
-/

namespace Chip8

/-- One component of a name. -/
abbrev Component := List Char

/-- The reason of a system for not reading a file, with its number and its wording. -/
structure FileProblem where
  code : UInt32
  text : String
  /-- Whether the system names the file.  It does so if the file cannot be opened. -/
  named : Bool
deriving DecidableEq, Repr

namespace FileProblem

/-- A problem that keeps a file from being opened. -/
def onOpening (code : UInt32) (text : String) : FileProblem :=
  ⟨code, text, true⟩

def noSuchFile : FileProblem := onOpening 2 "No such file or directory"

def notADirectory : FileProblem := onOpening 20 "Not a directory"

def isADirectory : FileProblem := onOpening 21 "Is a directory"

def nameTooLong : FileProblem := onOpening 36 "File name too long"

end FileProblem

/-- The ways in which a file cannot be read. -/
inductive ReadError where
  /-- The name holds the character zero, which no system takes. -/
  | zeroInName
  /-- The name cannot be put into the encoding of the system's names, for a reason of its own. -/
  | notEncodable (reason : String)
  | refused (problem : FileProblem)
deriving DecidableEq, Repr

/-! ## Names -/

/-- The parts of a name between its slashes. -/
def splitSlash : List Char → List Component
  | [] => [[]]
  | c :: cs =>
    if c = '/' then [] :: splitSlash cs
    else
      match splitSlash cs with
      | [] => [[c]]
      | p :: ps => (c :: p) :: ps

/-- The component that stands for the directory itself. -/
def here : Component := ['.']

/-- The component that stands for the directory above. -/
def above : Component := ['.', '.']

/-- The components of a name.  A slash at the end asks for a directory, as a final point does. -/
def components (name : String) : List Component :=
  let parts := splitSlash name.toList
  parts.filter (· ≠ []) ++ if parts.getLast? = some [] then [here] else []

/-- The most bytes of a component. -/
def componentLimit : Nat := 255

/-- The most bytes of a whole name. -/
def nameLimit : Nat := 4095

/-! ## Trails -/

/-- The components on the way to a place, the last one first.  Components that lead above the
directory, or the mark of the top of the whole disk, stand at the beginning of the way. -/
abbrev Trail := List Component

/-- The mark of the top of the whole disk, which no component can be. -/
def top : Component := ['/']

/-- Where a name begins: a slash in front leads to the top. -/
def origin (name : String) : Trail :=
  if name.toList.head? = some '/' then [top] else []

/-- One directory up.  The top is above itself. -/
def Trail.up : Trail → Trail
  | [] => [above]
  | c :: outer => if c = above then above :: c :: outer else if c = top then c :: outer else outer

/-- The trail with one component more. -/
def Trail.follow (t : Trail) (c : Component) : Trail :=
  if c = here then t else if c = above then t.up else c :: t

/-- The trails that lead along some components, from the first to the last. -/
def Trail.along (t : Trail) : List Component → List Trail
  | [] => [t]
  | c :: cs => t :: (t.follow c).along cs

/-- The trails that lead along a name. -/
def trailsOf (name : String) : List Trail :=
  (origin name).along (components name)

/-- The trail to which a name leads. -/
def trailOf (name : String) : Trail :=
  (components name).foldl Trail.follow (origin name)

/-! ## Directories and files -/

/-- The contents of the disk. -/
structure Disk where
  directories : List Trail
  files : List (Trail × List UInt8)
deriving DecidableEq, Repr

/-- What a name leads to. -/
inductive Place where
  | file (bytes : List UInt8)
  | folder (trail : Trail)
deriving DecidableEq, Repr

namespace Disk

/-- The disk with directories and files of given names.  All directories on the way to them are
made, too. -/
def ofNames (directories : List String) (files : List (String × List UInt8)) : Disk where
  directories := directories.flatMap trailsOf ++ files.flatMap fun f => (trailsOf f.1).dropLast
  files := files.map fun f => (trailOf f.1, f.2)

/-- What there is at a trail. -/
def entry? (d : Disk) (t : Trail) : Option Place :=
  match d.files.lookup t with
  | some bytes => some (.file bytes)
  | none => if d.directories.contains t then some (.folder t) else none

/-- Follows one component. -/
def enter (d : Disk) (place : Place) (c : Component) : Except FileProblem Place :=
  match place with
  | .file _ => .error .notADirectory
  | .folder t =>
    if c = here ∨ c = above then .ok (.folder (t.follow c))
    else if componentLimit < (String.ofList c).utf8ByteSize then .error .nameTooLong
    else
      match d.entry? (t.follow c) with
      | some place => .ok place
      | none => .error .noSuchFile

/-- Follows a whole name. -/
def find (d : Disk) (name : String) : Except FileProblem Place :=
  if name = "" then .error .noSuchFile
  else if nameLimit < name.utf8ByteSize then .error .nameTooLong
  else (components name).foldlM d.enter (.folder (origin name))

/-- The bytes of a file. -/
def read (d : Disk) (name : String) : Except ReadError (List UInt8) :=
  if name.toList.contains (Char.ofNat 0) then .error .zeroInName
  else
    match d.find name with
    | .error problem => .error (.refused problem)
    | .ok (.file bytes) => .ok bytes
    | .ok _ => .error (.refused .isADirectory)

end Disk

end Chip8
