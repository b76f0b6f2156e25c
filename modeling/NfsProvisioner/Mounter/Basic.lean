import NfsProvisioner.Error
import NfsProvisioner.Event
import NfsProvisioner.Tree.Operations

/-!
# Mounters

Attaching an export makes its files appear below a local directory, the target; detaching takes
them away again. How that is done is up to a mounter, which may fail, change the tree of files, and
keep a state of its own between calls. Nothing else is assumed about it.
-/
namespace NfsProvisioner

/-- The machine on which requests are carried out: where relative paths start, its files, and what
its mounter remembers. -/
structure Host (σ : Type) where
  cwd : Location
  tree : Tree
  mounts : σ

/-- What a mounter leaves behind when a call returns. -/
structure Reply (σ : Type) where
  result : Except Error Unit
  tree : Tree
  mounts : σ
  log : List Event := []

/-- A way to attach and detach exports. -/
structure Mounter (σ : Type) where
  /-- Attaches the directory `share` of `server` at `target`. -/
  attach : (target : Path) → (server share : String) → Host σ → Reply σ
  /-- Detaches whatever is attached at `target`. -/
  detach : (target : Path) → Host σ → Reply σ

/-- A call to a mounter. -/
inductive Call where
  | attach (target : Path) (server share : String)
  | detach (target : Path)
deriving DecidableEq, Repr

/-- A call to a mounter and what it came to. -/
structure Receipt where
  call : Call
  result : Except Error Unit

namespace Receipt

/-- Something was attached at the target. -/
def attaches (target : Path) : Receipt → Bool
  | ⟨.attach t _ _, .ok ()⟩ => t == target
  | _ => false

/-- The target was to be detached, successfully or not. -/
def detaches (target : Path) : Receipt → Bool
  | ⟨.detach t, _⟩ => t == target
  | _ => false

end Receipt

namespace Mounter

/-- What a mounter replies to a call. -/
def reply {σ : Type} (m : Mounter σ) : Call → Host σ → Reply σ
  | .attach target server share => m.attach target server share
  | .detach target => m.detach target

/-- A mounter that always succeeds and does nothing, so that the target itself stands for the
export. -/
def inert {σ : Type} : Mounter σ where
  attach _ _ _ host := ⟨.ok (), host.tree, host.mounts, []⟩
  detach _ host := ⟨.ok (), host.tree, host.mounts, []⟩

/-- A mounter of which all calls to attach, or all calls to detach, fail with a given error and do
nothing else. -/
def failing {σ : Type} (m : Mounter σ) (attachError detachError : Option Error) : Mounter σ where
  attach target server share host :=
    match attachError with
    | some e => ⟨.error e, host.tree, host.mounts, []⟩
    | none => m.attach target server share host
  detach target host :=
    match detachError with
    | some e => ⟨.error e, host.tree, host.mounts, []⟩
    | none => m.detach target host

end Mounter
end NfsProvisioner
