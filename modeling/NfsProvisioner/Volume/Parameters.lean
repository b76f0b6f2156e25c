import NfsProvisioner.Text.Lowercase
import NfsProvisioner.Volume.Placement

/-!
# Parameters of a new volume

A volume is asked for by name and with two parameters, the server and the base directory. The names
of parameters are read without regard to case. A parameter that is not known is an error before
anything else is looked at, then a missing one, then a value that is not a plain name.
-/
namespace NfsProvisioner

inductive Parameter where
  | server
  | baseDir
deriving DecidableEq, Repr

/-- The name of a parameter, in lower case. -/
def Parameter.key : Parameter → String
  | server => "server"
  | baseDir => "base-dir"

/-- The parameter that a key names, whatever the case of its letters. -/
def Parameter.ofKey? (key : String) : Option Parameter :=
  let lower := String.ofList (Text.lowercase key.toList)
  if lower = Parameter.server.key then some .server
  else if lower = Parameter.baseDir.key then some .baseDir
  else none

/-- Why the parameters of a volume are refused. -/
inductive ParameterFault where
  | unknown (key : String)
  | missing (parameter : Parameter)
  | slashInName (what value : String)
  | relativeName (what value : String)
deriving DecidableEq, Repr

def ParameterFault.message : ParameterFault → String
  | unknown key => "invalid parameter " ++ Text.quote key
  | missing parameter => parameter.key ++ " is a required parameter"
  | slashInName what value => what ++ " " ++ Text.quote value ++ " must not contain '/'"
  | relativeName what value => what ++ " " ++ Text.quote value ++ " is not a directory name"

/-- The values of the known parameters so far. -/
structure ParameterValues where
  server : Option String := none
  baseDir : Option String := none
deriving DecidableEq, Repr

namespace ParameterValues

/-- Takes in one entry. The later of two values for one parameter counts. -/
def add (values : ParameterValues) : String × String → Except ParameterFault ParameterValues
  | (key, value) =>
    match Parameter.ofKey? key with
    | some .server => .ok { values with server := some value }
    | some .baseDir => .ok { values with baseDir := some value }
    | none => .error (.unknown key)

/-- A value that has to be there and must not be empty. -/
def required (parameter : Parameter) : Option String → Except ParameterFault String
  | some value => if value = "" then .error (.missing parameter) else .ok value
  | none => .error (.missing parameter)

end ParameterValues

/-- A value that has to be usable as the name of a directory. -/
def checkName (what value : String) : Except ParameterFault Unit :=
  if '/' ∈ value.toList then .error (.slashInName what value)
  else if isRelativeName value then .error (.relativeName what value)
  else .ok ()

namespace Placement

/-- The volume called `name` with the given parameters, in the order in which they are looked
at. -/
def read (name : String) (entries : List (String × String)) : Except ParameterFault Placement := do
  let values ← entries.foldlM ParameterValues.add {}
  let server ← ParameterValues.required .server values.server
  let baseDir ← ParameterValues.required .baseDir values.baseDir
  checkName Parameter.baseDir.key baseDir
  checkName Parameter.server.key server
  checkName "name" name
  return ⟨server, baseDir, name⟩

/-- The volume called `name` with the given parameters. -/
def ofParameters (name : String) (entries : List (String × String)) : Except Error Placement :=
  match read name entries with
  | .ok p => .ok p
  | .error fault => .error (.invalidArgument fault.message)

end Placement
end NfsProvisioner
