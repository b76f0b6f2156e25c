import NfsProvisioner.Error
import NfsProvisioner.Text.Split

/-!
# Where a volume lives

A volume is a directory: the one called `name` below the base directory that a server exports. Its
id is these three, joined by slashes, and an id is read back by taking it apart again. Ids are kept
by callers for as long as the volume exists, so nothing is accepted as an id but what joining makes
out of three plain names.
-/
namespace NfsProvisioner

/-- The text by which callers name a volume. -/
structure VolumeId where
  text : String
deriving DecidableEq, Repr, Inhabited

structure Placement where
  server : String
  /-- The exported directory, below the root of the server. -/
  baseDir : String
  /-- The name of the volume's own directory. -/
  name : String
deriving DecidableEq, Repr

/-- A name that does not mean an entry of a directory but the directory itself or the one
above. -/
def isRelativeName (name : String) : Bool :=
  name == "." || name == ".."

namespace Placement

/-- The id of a volume. -/
def id (p : Placement) : VolumeId :=
  ⟨"/".intercalate [p.server, p.baseDir, p.name]⟩

/-- The path of the exported directory on the server. -/
def baseSharePath (p : Placement) : String :=
  "/" ++ p.baseDir

/-- The path of the volume on the server. -/
def sharePath (p : Placement) : String :=
  "/" ++ p.baseDir ++ "/" ++ p.name

/-- The volume as operators write it. -/
def display (p : Placement) : String :=
  p.server ++ ":" ++ p.sharePath

end Placement

/-- Why a text is no volume id. Positions count from zero. -/
inductive IdFault where
  | tokenCount (count : Nat)
  | emptyToken (position : Nat)
  | relativeToken (position : Nat)
deriving DecidableEq, Repr

def IdFault.message : IdFault → String
  | tokenCount count => "got " ++ toString count ++ " tokens"
  | emptyToken position => "token " ++ toString position ++ " is empty"
  | relativeToken position => "token " ++ toString position ++ " is a relative path component"

namespace VolumeId

def isEmpty (id : VolumeId) : Bool :=
  id.text.isEmpty

/-- The pieces of an id between its slashes. The empty id has none. -/
def tokens (id : VolumeId) : List String :=
  if id.text = "" then [] else Text.splitText '/' id.text

/-- The volume that an id names, or why it names none. An empty piece counts before a relative
one. -/
def read (id : VolumeId) : Except IdFault Placement :=
  match id.tokens with
  | [server, baseDir, name] =>
    match [server, baseDir, name].findIdx? String.isEmpty,
        [server, baseDir, name].findIdx? isRelativeName with
    | some position, _ => .error (.emptyToken position)
    | none, some position => .error (.relativeToken position)
    | none, none => .ok ⟨server, baseDir, name⟩
  | tokens => .error (.tokenCount tokens.length)

/-- The volume that an id names. -/
def placement (id : VolumeId) : Except Error Placement :=
  match id.read with
  | .ok p => .ok p
  | .error fault => .error (.malformedIdentifier id.text fault.message)

end VolumeId

/-- A volume together with the id that it goes by. -/
structure Locator where
  id : VolumeId
  placement : Placement
deriving DecidableEq, Repr

/-- The volume that lives at a place, under the id that is made for it. -/
def Placement.locator (p : Placement) : Locator :=
  ⟨p.id, p⟩

/-- The volume that an id names, under the id as it was given. -/
def VolumeId.locator (id : VolumeId) : Except Error Locator := do
  return ⟨id, ← id.placement⟩

end NfsProvisioner
