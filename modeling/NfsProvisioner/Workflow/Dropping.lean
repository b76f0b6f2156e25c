import NfsProvisioner.Workflow.Attachment
import NfsProvisioner.Workflow.Interleaving

/-!
# Dropping a procedure

A procedure goes on as long as somebody waits for it. Whenever it waits for something itself it can
be dropped: nothing of it is carried out any more, apart from what has begun and cannot be called
back.

An export that is attached at that time must not be forgotten, and must not be detached twice
either. That is what a guard is for. It comes into being when an export has been attached, it is
told before the export is released, and when the procedure is dropped it goes with it. A guard that
has not been told by then has the export detached in the background, if there is a runtime that can
do that, and otherwise leaves the mount point in place. Either is logged.
-/
namespace NfsProvisioner

/-- What keeps an attached export from being forgotten. -/
structure Guard where
  target : Path
  released : Bool := false
deriving DecidableEq, Repr

/-- What comes of something that is dropped: what is logged, and what is left to the background. -/
structure Aftermath where
  log : List Event := []
  background : List (Procedure Unit) := []

/-- What is logged about an export that has not been released when its guard is dropped. -/
def abandoned (target : Path) (inRuntime : Bool) : Event :=
  ⟨.warning,
    if inRuntime then "internal mount dropped without release, detaching in background"
    else "internal mount dropped outside a runtime, leaving it in place",
    [("target", target.text)]⟩

/-- Drops a guard, inside a runtime or outside any. -/
def Guard.drop (guard : Guard) (inRuntime : Bool) : Aftermath :=
  if guard.released then {}
  else if inRuntime then
    ⟨[abandoned guard.target true], [.detachBestEffort guard.target]⟩
  else ⟨[abandoned guard.target false], []⟩

/-- What a procedure has come to, apart from what remains of it. -/
structure Standing (σ : Type) where
  host : Host σ
  guard : Option Guard := none
  /-- What the calls to the mounter came to that have returned. -/
  returned : List Receipt := []
  /-- What has been left to the background. -/
  background : List (Procedure Unit) := []
  trace : List Happening := []

namespace Standing

variable {σ : Type}

/-- Drops the guard, if there is one. -/
def dropGuard (s : Standing σ) (inRuntime : Bool) : Standing σ :=
  match s.guard with
  | none => s
  | some guard =>
    let aftermath := guard.drop inRuntime
    { s with
      guard := none
      background := s.background ++ aftermath.background
      trace := s.trace ++ aftermath.log.map .logged }

/-- Procedures are carried out inside a runtime, so that is where a guard is left. -/
def carryOut (s : Standing σ) : Statement → Standing σ
  | .log event => { s with trace := s.trace ++ [.logged event] }
  | .guard target => { s with guard := some ⟨target, false⟩ }
  | .markReleased => { s with guard := s.guard.map fun guard => { guard with released := true } }
  | .leaveGuard => s.dropGuard true

end Standing

namespace Procedure

variable {α : Type}

/-- The call to the mounter that a procedure comes to next, if it does. -/
def call? : Procedure α → Option Call
  | attach target server share _ => some (.attach target server share)
  | detach target _ => some (.detach target)
  | _ => none

def answer? : Procedure α → Option α
  | done a => some a
  | _ => none

/-- What is still done of a procedure that has been dropped while it waited for work on files: the
actions on files that come next, and of them at most the given number. -/
def underWay : Nat → Procedure α → Procedure Unit
  | n + 1, makeDirectory p next => makeDirectory p fun result => (next result).underWay n
  | n + 1, isDirectory p next => isDirectory p fun there => (next there).underWay n
  | n + 1, removeDirectory p next => removeDirectory p fun result => (next result).underWay n
  | n + 1, removeAll p next => removeAll p fun result => (next result).underWay n
  | _, _ => done ()

end Procedure

/-- A procedure that somebody waits for. It waits itself for its next action, or is done. -/
structure Running (σ α : Type) extends Standing σ where
  rest : Procedure α

/-- How a procedure is dropped, and what the world makes of it. -/
structure Dropping (σ : Type) where
  /-- Whether there is a runtime that can do something in the background. -/
  inRuntime : Bool
  /-- How many actions on files are still carried out. -/
  carried : Nat := 1
  /-- What a call to the mounter does that is not waited for to its end. Its result is lost. -/
  unfinished : Mounter σ := .inert
  /-- In which order things go on without the procedure: first what is under way of it, then what
  has been left to the background. -/
  schedule : List Nat := []

namespace Running

variable {σ α : Type}

/-- Carries out what comes before the next action. -/
def advance : Procedure α → Standing σ → Running σ α
  | .now statement next, s => advance next (s.carryOut statement)
  | p, s => { s with rest := p }

def start (p : Procedure α) (host : Host σ) : Running σ α :=
  advance p { host }

/-- The action that is waited for comes to its end, and the procedure goes on up to the next. -/
def resume (m : Mounter σ) (r : Running σ α) : Option (Running σ α) :=
  (r.rest.step m r.host).map fun (next, host, seen) =>
    let returned := r.rest.call?.toList.map fun call => ⟨call, (m.reply call r.host).result⟩
    advance next { r.toStanding with
      host, returned := r.returned ++ returned, trace := r.trace ++ seen }

/-- The procedure after a number of actions, or when it is done. -/
def after (m : Mounter σ) : Nat → Running σ α → Running σ α
  | 0, r => r
  | n + 1, r =>
    match r.resume m with
    | none => r
    | some r' => r'.after m n

/-- The calls to the mounter, also the one that is waited for. -/
def issued (r : Running σ α) : List Call :=
  r.returned.map Receipt.call ++ r.rest.call?.toList

/-- Nobody waits any more for what the procedure waits for. A call to the mounter has begun and may
still do something. -/
def quit (r : Running σ α) (unfinished : Mounter σ) : Standing σ :=
  match r.rest.call? with
  | none => r.toStanding
  | some call =>
    let reply := unfinished.reply call r.host
    { r.toStanding with
      host := r.host.after reply
      trace := r.trace ++ .called call :: reply.log.map .logged }

/-- Drops the procedure. What is under way of it goes on by itself, beside the background. -/
def drop (r : Running σ α) (d : Dropping σ) : Crew σ Unit :=
  let s := (r.quit d.unfinished).dropGuard d.inRuntime
  ⟨r.rest.underWay d.carried :: s.background, s.host, s.trace.map (Prod.mk 0)⟩

/-- What comes of the procedure when it is dropped, unless it is done by then. -/
def fate (m : Mounter σ) (r : Running σ α) (d : Dropping σ) : Outcome σ (Option α) :=
  let left := (r.drop d).run m d.schedule
  ⟨r.rest.answer?, left.host, left.trace.map Prod.snd⟩

end Running

/-- Drops a procedure that has waited for a number of actions. -/
def Procedure.dropAfter {σ α : Type} (p : Procedure α) (m : Mounter σ) (host : Host σ)
    (actions : Nat) (d : Dropping σ) : Outcome σ (Option α) :=
  ((Running.start p host).after m actions).fate m d

end NfsProvisioner
