import NfsProvisioner.Mounter.Basic
import NfsProvisioner.Mounter.Table
import NfsProvisioner.Text.Utf8

/-!
# The NFS client of the host

Attaches exports by running the program `mount`, and detaches them by asking the host to unmount.
What is mounted is read from the host's table: an export is not attached twice at one target, and
where nothing is mounted there is nothing to detach.

How the host behaves is described by a few values: the text of its table, what becomes of a run of
the program, and what it answers when asked to unmount.
-/
namespace NfsProvisioner

/-- How a program ends. -/
inductive Ending where
  | exited (status : UInt8)
  /-- Killed by a signal, so that there is no exit status. -/
  | killed
deriving DecidableEq, Repr

/-- What becomes of an attempt to run the program `mount`. -/
inductive MountProgram where
  | missing
  | notExecutable
  /-- It runs, writes some bytes as error messages, and ends. -/
  | runs (ending : Ending) (messages : List UInt8)
deriving DecidableEq, Repr

/-- Why the program `mount` did not mount an export. -/
inductive MountFault where
  /-- One of its arguments would hold U+0000. -/
  | nulInArgument
  | missing
  | notExecutable
  /-- It ran for the given source and failed. -/
  | failed (source : String) (ending : Ending) (messages : List UInt8)
deriving DecidableEq, Repr

/-- How an ending reads in a message. -/
def Ending.text : Ending → String
  | exited status => "Some(" ++ toString status.toNat ++ ")"
  | killed => "None"

def MountFault.message : MountFault → String
  | nulInArgument => "spawn mount: nul byte found in provided data"
  | missing => "spawn mount: No such file or directory (os error 2)"
  | notExecutable => "spawn mount: Permission denied (os error 13)"
  | failed source ending messages =>
    "mount " ++ source ++ " exited with " ++ ending.text ++ ": "
      ++ String.ofList (Text.trim (Text.decodeUtf8 messages))

/-- What the host answers when it is asked to unmount. -/
inductive Unmounting where
  | done
  /-- Nothing is mounted there after all. -/
  | notMounted
  | refused (reason : String)
deriving DecidableEq, Repr

structure NfsClient where
  /-- Options for every mount. -/
  options : List String
  /-- The table of mounted file systems, unless it cannot be read. -/
  table : Option String
  program : MountProgram
  unmounting : Unmounting := .notMounted
deriving DecidableEq, Repr

/-- The argument lists of the runs of the program `mount` so far. -/
abbrev MountRuns := List (List String)

/-- What an attempt to attach an export comes to: its result, the argument list if the program was
run, and what was logged. -/
structure MountAttempt where
  result : Except Error Unit
  run : Option (List String)
  log : List Event

namespace NfsClient

/-- Whether something is mounted at a path, if the table can be read. The path is looked up as the
table writes it: absolute, without symbolic links, `.` and `..`. A path that leads nowhere is looked
up as it is. -/
def mountState (client : NfsClient) (cwd : Location) (tree : Tree) (path : String) : Option Bool :=
  client.table.map fun table =>
    MountTable.lists table (match tree.canonical cwd path with
      | .ok resolved => resolved
      | .error _ => path)

/-- Whether the table says that something is mounted at a path. -/
def isMountPoint (client : NfsClient) (cwd : Location) (tree : Tree) (path : String) : Bool :=
  client.mountState cwd tree path == some true

/-- An export as the program `mount` names it. -/
def source (server share : String) : String :=
  server ++ ":" ++ share

/-- The arguments for the program `mount`. -/
def arguments (client : NfsClient) (target server share : String) : List String :=
  ["-t", "nfs"]
    ++ (if client.options.isEmpty then [] else ["-o", ",".intercalate client.options])
    ++ [source server share, target]

/-- The result of running the program `mount`. An argument that holds U+0000 cannot be handed to
any program. -/
def runMount (client : NfsClient) (target server share : String) : MountAttempt :=
  let arguments := client.arguments target server share
  let failed (fault : MountFault) : Except Error Unit := .error (.mountFailed target fault.message)
  if arguments.any fun argument => '\x00' ∈ argument.toList then ⟨failed .nulInArgument, none, []⟩
  else match client.program with
    | .missing => ⟨failed .missing, none, []⟩
    | .notExecutable => ⟨failed .notExecutable, none, []⟩
    | .runs (.exited 0) _ =>
      ⟨.ok (), some arguments,
        [⟨.info, "nfs export mounted", [("source", source server share)]⟩]⟩
    | .runs ending messages =>
      ⟨failed (.failed (source server share) ending messages), some arguments, []⟩

/-- Attaches an export, unless something is mounted at the target already. -/
def attachAt (client : NfsClient) (cwd : Location) (tree : Tree) (target server share : String) :
    MountAttempt :=
  if client.isMountPoint cwd tree target then ⟨.ok (), none, []⟩
  else client.runMount target server share

/-- Detaches what is mounted at the target. The host is asked only if something may be mounted
there. -/
def detachAt (client : NfsClient) (cwd : Location) (tree : Tree) (target : String) :
    Except Error Unit × List Event :=
  if client.mountState cwd tree target = some false then (.ok (), [])
  else match client.unmounting with
    | .done => (.ok (), [⟨.info, "nfs export unmounted", []⟩])
    | .notMounted => (.ok (), [])
    | .refused reason => (.error (.unmountFailed target reason), [])

/-- The mounter that attaches and detaches through the client. It remembers the runs of the program.

A run of the program is taken to leave the files and the table as they are, and so is unmounting,
also when they succeed: this is a host on which they only seem to do their work. A mounter that
shows the files of an export at the target is `Exports.mounter`. -/
def mounter (client : NfsClient) : Mounter MountRuns where
  attach target server share host :=
    let attempt := client.attachAt host.cwd host.tree target.text server share
    ⟨attempt.result, host.tree, host.mounts ++ attempt.run.toList, attempt.log⟩
  detach target host :=
    let (result, log) := client.detachAt host.cwd host.tree target.text
    ⟨result, host.tree, host.mounts, log⟩

end NfsClient
end NfsProvisioner
