import NfsProvisioner.Fault
import NfsProvisioner.Path
import NfsProvisioner.Tree.Basic

/-!
# Following a path

Where a path leads in a tree. A walk takes the pieces of a path one by one: it must stand in a
directory to go on, `..` leads to the directory above, and a symbolic link sends it along the pieces
of the link's own text before the rest. After forty links it gives up, so every walk ends.

The last name on a walk may stand for nothing yet if an entry is to be made there. The walk then
leads to where that entry would be, also when symbolic links lead there.

An operation that makes or removes an entry walks to the directory above it only, so that a
symbolic link in the last place is the entry itself and is not followed.
-/
namespace NfsProvisioner.Tree

/-- The longest name, in bytes. -/
def maxNameBytes : Nat := 255

/-- The length in bytes from which on the text of a path is too long. -/
def maxPathBytes : Nat := 4096

/-- How many symbolic links one walk follows. -/
def maxLinks : Nat := 40

/-- What makes the text of a path unusable before any file is looked at. -/
def checkText (text : String) : Except Fault Unit :=
  if '\x00' ∈ text.toList then .error .nulInPath
  else if text = "" then .error .notFound
  else .ok ()

/-- What makes the text of a path unusable for an operation, which takes the path as a whole. -/
def checkOperand (text : String) : Except Fault Unit := do
  checkText text
  if maxPathBytes ≤ text.utf8ByteSize then throw .nameTooLong

/-- Where the text of a symbolic link that stands in the directory `l` starts from. -/
def linkStart (l : Location) (target : String) : Location :=
  match Path.anchorOf target.toList with
  | .here => l
  | .root | .doubleRoot => []

/-- What the last name on a walk may stand for. -/
inductive Last where
  /-- Something that is there. -/
  | present
  /-- Something that is there or is still to be made. -/
  | presentOrNew
deriving DecidableEq, Repr

/-- The walk from `l` along some pieces, up to the first symbolic link; `follow` takes it from
there. -/
def walkWith (t : Tree) (last : Last)
    (follow : Location → List String → Except Fault Location) :
    Location → List String → Except Fault Location
  | l, [] => .ok l
  | l, piece :: rest =>
    if t.get? l ≠ some .directory then .error .notDirectory
    else if piece = "" ∨ piece = "." then walkWith t last follow l rest
    else if piece = ".." then walkWith t last follow l.dropLast rest
    else if maxNameBytes < piece.utf8ByteSize then .error .nameTooLong
    else match t.get? (l ++ [piece]) with
      | none =>
        if last = .presentOrNew ∧ rest = [] then .ok (l ++ [piece]) else .error .notFound
      | some (.link target) =>
        follow (linkStart l target) (Text.splitText '/' target ++ rest)
      | some _ => walkWith t last follow (l ++ [piece]) rest

/-- The walk from a location along some pieces that follows at most the given number of symbolic
links. -/
def walk (t : Tree) (last : Last) : Nat → Location → List String → Except Fault Location
  | 0 => walkWith t last fun _ _ => .error .tooManyLinks
  | links + 1 => walkWith t last (walk t last links)

/-- The location of what a path leads to, all symbolic links followed. -/
def resolve (t : Tree) (cwd : Location) (p : Path) : Except Fault Location := do
  checkOperand p.text
  t.walk .present maxLinks (p.start cwd) p.pieces

/-- The location of what a path leads to or of what would be made there, all symbolic links
followed. -/
def resolveNew (t : Tree) (cwd : Location) (p : Path) : Except Fault Location := do
  checkOperand p.text
  t.walk .presentOrNew maxLinks (p.start cwd) p.pieces

/-- Whether a path leads to a directory. -/
def isDirectory (t : Tree) (cwd : Location) (p : Path) : Bool :=
  match t.resolve cwd p with
  | .ok l => t.get? l == some .directory
  | .error _ => false

/-- The absolute path without symbolic links of what the text of a path leads to. It is found name
by name, so that the text may be of any length. -/
def canonical (t : Tree) (cwd : Location) (text : String) : Except Fault String := do
  checkText text
  let l ← t.walk .present maxLinks (linkStart cwd text) (Text.splitText '/' text)
  return "/" ++ "/".intercalate l

/-- Where a path puts its last name. -/
inductive Slot (t : Tree) where
  /-- A name in a directory. Whether there is such an entry is left open. -/
  | entry (l : Location) (directory : t.get? l = some .directory) (name : String)
  /-- A directory that the path names by where it starts, or by `..`. -/
  | ancestor (l : Location)

/-- Where a path puts its last name. The directory above it must be there. -/
def slot (t : Tree) (cwd : Location) (p : Path) : Except Fault (Slot t) := do
  checkOperand p.text
  let l ← t.walk .present maxLinks (p.start cwd) p.names.dropLast
  if directory : t.get? l = some .directory then
    match p.names.getLast? with
    | none => return .ancestor l
    | some name =>
      if name = ".." then return .ancestor l.dropLast
      else if maxNameBytes < name.utf8ByteSize then throw .nameTooLong
      else return .entry l directory name
  else throw .notDirectory

end NfsProvisioner.Tree
