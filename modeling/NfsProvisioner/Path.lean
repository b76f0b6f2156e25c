import NfsProvisioner.Text.Split

/-!
# Path names

A path as POSIX reads its text, without looking at any file: what it starts from, the names on the
way, and whether it ends with a slash. Repeated slashes and `.` mean nothing and are dropped; `..`
is a name like any other here, since only the file system knows where it leads. A path that starts
with exactly two slashes is not the same as one that starts with one.
-/
namespace NfsProvisioner

/-- What a path starts from. -/
inductive Anchor where
  /-- The current directory. -/
  | here
  /-- The root directory. -/
  | root
  /-- Exactly two slashes, which a host may take for something else than the root directory. -/
  | doubleRoot
deriving DecidableEq, Repr

/-- How the text of a path shows its start. -/
def Anchor.text : Anchor → String
  | .here => ""
  | .root => "/"
  | .doubleRoot => "//"

/-- A path in normal form. -/
structure Path where
  anchor : Anchor
  names : List String
  /-- Whether the text ends with a slash, so that the path can only mean a directory. -/
  trailing : Bool
deriving DecidableEq, Repr

namespace Path

/-- What the text of a path starts from. Three slashes or more are one. -/
def anchorOf : List Char → Anchor
  | '/' :: '/' :: '/' :: _ => .root
  | '/' :: '/' :: _ => .doubleRoot
  | '/' :: _ => .root
  | _ => .here

/-- A piece of the text of a path that means something. -/
def isName (piece : String) : Bool :=
  piece != "" && piece != "."

/-- The names in the text of a path. -/
def namesOf (text : String) : List String :=
  (Text.splitText '/' text).filter isName

/-- Whether the text of a path starts from the root directory. -/
def isRooted (text : String) : Bool :=
  anchorOf text.toList != .here

/-- Whether the text of a path says itself that it starts from the current directory. -/
def startsWithDot (text : String) : Bool :=
  (Text.splitText '/' text).head? == some "."

/-- Whether two texts spell one path: the same names from the same start. Slashes that are repeated
or at an end make no difference, and neither does `.`, unless a text starts with it. -/
def sameSpelling (a b : String) : Bool :=
  isRooted a == isRooted b && startsWithDot a == startsWithDot b && namesOf a == namesOf b

/-- The path that leads nowhere: its text is empty, and no file system finds anything there. -/
def empty : Path :=
  ⟨.here, [], false⟩

/-- The path as text. -/
def text (p : Path) : String :=
  p.anchor.text ++ "/".intercalate p.names ++
    if p.trailing && !p.names.isEmpty then "/" else ""

/-- The absolute form of a path given as text, read in the directory `cwd`. The names keep their
order, and `..` stays in place. The empty text has no absolute form and stays empty. -/
def absolute (cwd : List String) (text : String) : Path :=
  if text = "" then empty
  else
    let trailing := text.toList.getLast? = some '/'
    let (anchor, names) := match anchorOf text.toList with
      | .here => (Anchor.root, cwd ++ namesOf text)
      | anchor => (anchor, namesOf text)
    ⟨anchor, names, trailing && !names.isEmpty⟩

/-- The entry called `name` of the directory at `p`. -/
def child (p : Path) (name : String) : Path :=
  ⟨p.anchor, p.names ++ [name], false⟩

/-- The pieces of the path for a walk: an empty one at the end asks for a directory. -/
def pieces (p : Path) : List String :=
  p.names ++ if p.trailing then [""] else []

/-- The location that the path starts from, when the current directory is `cwd`. -/
def start (cwd : List String) (p : Path) : List String :=
  match p.anchor with
  | .here => cwd
  | .root | .doubleRoot => []

end Path
end NfsProvisioner
