import NfsProvisioner.Workflow.Procedure

/-!
# Work on an attached export

To work on the files of an export, a procedure makes a mount point of its own, attaches the export
there, does the work, detaches it and removes the mount point. An attached export is detached
exactly once, however the work went. A mount point is removed only when it is empty; what is in it
otherwise stays for inspection.
-/
namespace NfsProvisioner.Procedure

variable {α : Type}

/-- What is logged when an export cannot be detached. -/
def detachFailed (target : Path) (e : Error) : Event :=
  ⟨.warning, "failed to unmount nfs server", [("target", target.text), ("error", e.message)]⟩

/-- Removes a mount point if it is an empty directory. -/
def removeMountPoint (target : Path) : Procedure Unit :=
  removeDirectory target fun _ => done ()

/-- Detaches an export and removes its mount point. A failure is logged and otherwise ignored,
since what a request is answered with has been decided by then. -/
def detachBestEffort (target : Path) : Procedure Unit :=
  detach target fun
    | .ok () => removeMountPoint target
    | .error e => log (detachFailed target e)

/-- Detaches an export that a guard has been put over. The guard is told before, so that the export
is not detached once more if this is dropped, and is left after. -/
def release (target : Path) : Procedure Unit :=
  now .markReleased do
    detachBestEffort target
    now .leaveGuard (done ())

/-- Does some work while an export is attached at a mount point of its own. The answer is an error
when the work could not begin. -/
def whileAttached (target : Path) (server share : String) (work : Procedure α) :
    Procedure (Except Error α) := do
  match ← createDirectories target with
  | .error fault =>
    return .error (.mountFailed target.text ("create mount point: " ++ fault.message))
  | .ok () =>
    attach target server share fun
      | .error e => do
        removeMountPoint target
        return .error e
      | .ok () =>
        now (.guard target) do
          let a ← work
          release target
          return .ok a

end NfsProvisioner.Procedure
