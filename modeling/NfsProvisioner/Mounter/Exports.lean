import NfsProvisioner.Workflow.Procedure

/-!
# Exports kept in the same tree

A mounter whose exports are directories of the host itself, kept below one directory: the export
`share` of `server` is the directory `server/share` there. Attaching moves that directory to the
target, and detaching moves it back and leaves an empty directory in its place. So the files of an
export are always in exactly one place, and work on an attached export is work on the export.
-/
namespace NfsProvisioner

/-- Where an export is attached, and the directory that it is when it is not. -/
structure Attachment where
  target : Path
  directory : Path
deriving DecidableEq, Repr

/-- The exports of a host, kept below the directory `home`. -/
structure Exports where
  home : Path

/-- Why an export cannot be attached. -/
inductive ExportFault where
  /-- It is attached at another target. -/
  | busy
  /-- Its directory cannot be made. -/
  | unavailable
  | targetNotEmpty
  /-- Its directory cannot be moved to the target. -/
  | notMoved
deriving DecidableEq, Repr

def ExportFault.message : ExportFault → String
  | busy => "export busy"
  | unavailable => "export unavailable"
  | targetNotEmpty => "mount point not empty"
  | notMoved => "rename"

namespace Exports

/-- The directory that an export is while it is not attached. -/
def directory (exports : Exports) (server share : String) : Path :=
  (Path.namesOf share).foldl Path.child (exports.home.child server)

/-- Moves the directory of an export to the target, where an empty directory has to be. What has
been done when a step fails is not undone. -/
def expose (host : Host (List Attachment)) (target directory : Path) :
    Except ExportFault Unit × Tree :=
  let made := (Procedure.createDirectories directory).run .inert host
  let tree := made.host.tree
  match made.answer with
  | .error _ => (.error .unavailable, tree)
  | .ok () =>
    match tree.removeDirectory host.cwd target with
    | .error _ => (.error .targetNotEmpty, tree)
    | .ok cleared =>
      match cleared.rename host.cwd directory target with
      | .error _ => (.error .notMoved, cleared)
      | .ok moved => (.ok (), moved)

/-- Attaches an export. At a target where something is attached already, nothing is done. -/
def attach (exports : Exports) (target : Path) (server share : String)
    (host : Host (List Attachment)) : Reply (List Attachment) :=
  let directory := exports.directory server share
  let failed (fault : ExportFault) (tree : Tree) : Reply (List Attachment) :=
    ⟨.error (.mountFailed target.text fault.message), tree, host.mounts, []⟩
  if host.mounts.any (·.target == target) then ⟨.ok (), host.tree, host.mounts, []⟩
  else if host.mounts.any (·.directory == directory) then failed .busy host.tree
  else match expose host target directory with
    | (.ok (), tree) => ⟨.ok (), tree, host.mounts ++ [⟨target, directory⟩], []⟩
    | (.error fault, tree) => failed fault tree

/-- The tree after an export has been moved back from its target. -/
def putBack (host : Host (List Attachment)) (a : Attachment) : Tree :=
  match host.tree.rename host.cwd a.target a.directory with
  | .error _ => host.tree
  | .ok moved =>
    match moved.makeDirectory host.cwd a.target with
    | .error _ => moved
    | .ok tree => tree

/-- Detaches what is attached at the target. -/
def detach (target : Path) (host : Host (List Attachment)) : Reply (List Attachment) :=
  match host.mounts.find? (·.target == target) with
  | none => ⟨.ok (), host.tree, host.mounts, []⟩
  | some a => ⟨.ok (), putBack host a, host.mounts.filter (·.target != target), []⟩

/-- The mounter that attaches and detaches the exports. It remembers what is attached. -/
def mounter (exports : Exports) : Mounter (List Attachment) :=
  ⟨exports.attach, detach⟩

end Exports
end NfsProvisioner
