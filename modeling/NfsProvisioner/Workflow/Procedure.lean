import NfsProvisioner.Mounter.Basic

/-!
# Procedures

A procedure is a sequence of single actions on a host, each of which may depend on the outcomes of
those before it, and an answer at the end. It is data: it can be run to its end, advanced by one
action while other procedures act in between, or dropped at some point.

Between its actions a procedure does what nothing has to be waited for: it logs events, and it keeps
a guard over the export that it has attached. A guard makes a difference only to a procedure that is
dropped before its end, so `step` and `run` leave it out (`Workflow/Dropping` puts it in).

Running a procedure yields, beside the answer and the host, the trace of what could be seen from
outside: calls to the mounter and log events, in order.
-/
namespace NfsProvisioner

/-- Something that can be seen from outside while a procedure runs. -/
inductive Happening where
  | called (call : Call)
  | logged (event : Event)
deriving DecidableEq, Repr

namespace Happening

def call? : Happening → Option Call
  | called call => some call
  | logged _ => none

def event? : Happening → Option Event
  | called _ => none
  | logged event => some event

@[simp]
theorem filterMap_call?_called (call : Call) (rest : List Happening) :
    (called call :: rest).filterMap call? = call :: rest.filterMap call? :=
  rfl

@[simp]
theorem filterMap_call?_logged (event : Event) (rest : List Happening) :
    (logged event :: rest).filterMap call? = rest.filterMap call? :=
  rfl

@[simp]
theorem filterMap_event?_called (call : Call) (rest : List Happening) :
    (called call :: rest).filterMap event? = rest.filterMap event? :=
  rfl

@[simp]
theorem filterMap_event?_logged (event : Event) (rest : List Happening) :
    (logged event :: rest).filterMap event? = event :: rest.filterMap event? :=
  rfl

@[simp]
theorem filterMap_call?_map_logged (log : List Event) : (log.map logged).filterMap call? = [] := by
  rw [List.filterMap_map]
  exact List.filterMap_eq_nil_iff.2 fun _ _ => rfl

@[simp]
theorem filterMap_event?_map_logged (log : List Event) :
    (log.map logged).filterMap event? = log := by
  rw [List.filterMap_map]
  exact List.filterMap_some

end Happening

/-- What a procedure does without waiting for anything. -/
inductive Statement where
  | log (event : Event)
  /-- Puts a guard over the export that is attached at the target. -/
  | guard (target : Path)
  /-- Tells the guard that the export is being released. -/
  | markReleased
  /-- Lets go of the guard. -/
  | leaveGuard
deriving DecidableEq, Repr

/-- What can be seen of a statement from outside. -/
def Statement.seen : Statement → List Happening
  | log event => [.logged event]
  | guard _ | markReleased | leaveGuard => []

/-- No statement is a call to the mounter. -/
@[simp]
theorem Statement.calls_seen (s : Statement) : s.seen.filterMap Happening.call? = [] := by
  cases s <;> rfl

inductive Procedure (α : Type) where
  | done (answer : α)
  | now (statement : Statement) (next : Procedure α)
  | makeDirectory (p : Path) (next : Except Fault Unit → Procedure α)
  | isDirectory (p : Path) (next : Bool → Procedure α)
  | removeDirectory (p : Path) (next : Except Fault Unit → Procedure α)
  | removeAll (p : Path) (next : Except Fault Unit → Procedure α)
  | attach (target : Path) (server share : String) (next : Except Error Unit → Procedure α)
  | detach (target : Path) (next : Except Error Unit → Procedure α)

namespace Host

variable {σ : Type}

/-- A change of files that may be refused, and then changes nothing. -/
def change (host : Host σ) (result : Except Fault Tree) : Except Fault Unit × Host σ :=
  match result with
  | .ok tree => (.ok (), { host with tree })
  | .error fault => (.error fault, host)

def makeDirectory (host : Host σ) (p : Path) : Except Fault Unit × Host σ :=
  host.change (host.tree.makeDirectory host.cwd p)

def removeDirectory (host : Host σ) (p : Path) : Except Fault Unit × Host σ :=
  host.change (host.tree.removeDirectory host.cwd p)

def removeAll (host : Host σ) (p : Path) : Except Fault Unit × Host σ :=
  host.change (host.tree.removeAll host.cwd p)

/-- The host after a call to its mounter. -/
def after (host : Host σ) (reply : Reply σ) : Host σ :=
  { host with tree := reply.tree, mounts := reply.mounts }

end Host

/-- What running a procedure yields. -/
structure Outcome (σ α : Type) where
  answer : α
  host : Host σ
  trace : List Happening

namespace Outcome

variable {σ α : Type}

/-- The calls to the mounter. -/
def calls (o : Outcome σ α) : List Call :=
  o.trace.filterMap Happening.call?

/-- The log events. -/
def log (o : Outcome σ α) : List Event :=
  o.trace.filterMap Happening.event?

/-- The outcome when something has happened before. -/
def following (o : Outcome σ α) (earlier : List Happening) : Outcome σ α :=
  { o with trace := earlier ++ o.trace }

end Outcome

namespace Procedure

variable {σ α β γ : Type}

/-- One procedure after another. -/
def bind : Procedure α → (α → Procedure β) → Procedure β
  | done a, f => f a
  | now s next, f => now s (next.bind f)
  | makeDirectory p next, f => makeDirectory p fun r => (next r).bind f
  | isDirectory p next, f => isDirectory p fun r => (next r).bind f
  | removeDirectory p next, f => removeDirectory p fun r => (next r).bind f
  | removeAll p next, f => removeAll p fun r => (next r).bind f
  | attach target server share next, f => attach target server share fun r => (next r).bind f
  | detach target next, f => detach target fun r => (next r).bind f

instance : Monad Procedure where
  pure := done
  bind := bind

theorem bind_done (p : Procedure α) : p.bind done = p := by
  induction p with
  | done a => rfl
  | now s next ih => exact congrArg (now s) ih
  | makeDirectory p next ih => exact congrArg (makeDirectory p) (funext ih)
  | isDirectory p next ih => exact congrArg (isDirectory p) (funext ih)
  | removeDirectory p next ih => exact congrArg (removeDirectory p) (funext ih)
  | removeAll p next ih => exact congrArg (removeAll p) (funext ih)
  | attach target server share next ih => exact congrArg (attach target server share) (funext ih)
  | detach target next ih => exact congrArg (detach target) (funext ih)

theorem bind_assoc (p : Procedure α) (f : α → Procedure β) (g : β → Procedure γ) :
    (p.bind f).bind g = p.bind fun a => (f a).bind g := by
  induction p with
  | done a => rfl
  | now s next ih => exact congrArg (now s) ih
  | makeDirectory p next ih => exact congrArg (makeDirectory p) (funext ih)
  | isDirectory p next ih => exact congrArg (isDirectory p) (funext ih)
  | removeDirectory p next ih => exact congrArg (removeDirectory p) (funext ih)
  | removeAll p next ih => exact congrArg (removeAll p) (funext ih)
  | attach target server share next ih => exact congrArg (attach target server share) (funext ih)
  | detach target next ih => exact congrArg (detach target) (funext ih)

instance : LawfulMonad Procedure :=
  LawfulMonad.mk' Procedure bind_done (fun _ _ => rfl) bind_assoc

/-- Logs an event. -/
def log (event : Event) : Procedure Unit :=
  now (.log event) (done ())

/-- One action of a procedure: what remains to be done, the host after it, and what could be seen.
A procedure that is done has no action left. -/
def step (m : Mounter σ) :
    Procedure α → Host σ → Option (Procedure α × Host σ × List Happening)
  | done _, _ => none
  | now s next, host => some (next, host, s.seen)
  | makeDirectory p next, host =>
    let (result, host') := host.makeDirectory p
    some (next result, host', [])
  | isDirectory p next, host => some (next (host.tree.isDirectory host.cwd p), host, [])
  | removeDirectory p next, host =>
    let (result, host') := host.removeDirectory p
    some (next result, host', [])
  | removeAll p next, host =>
    let (result, host') := host.removeAll p
    some (next result, host', [])
  | attach target server share next, host =>
    let reply := m.attach target server share host
    some (next reply.result, host.after reply,
      .called (.attach target server share) :: reply.log.map .logged)
  | detach target next, host =>
    let reply := m.detach target host
    some (next reply.result, host.after reply,
      .called (.detach target) :: reply.log.map .logged)

/-- Runs a procedure to its end. -/
def run (m : Mounter σ) : Procedure α → Host σ → Outcome σ α
  | done a, host => ⟨a, host, []⟩
  | now s next, host => (run m next host).following s.seen
  | makeDirectory p next, host =>
    let (result, host') := host.makeDirectory p
    run m (next result) host'
  | isDirectory p next, host => run m (next (host.tree.isDirectory host.cwd p)) host
  | removeDirectory p next, host =>
    let (result, host') := host.removeDirectory p
    run m (next result) host'
  | removeAll p next, host =>
    let (result, host') := host.removeAll p
    run m (next result) host'
  | attach target server share next, host =>
    let reply := m.attach target server share host
    (run m (next reply.result) (host.after reply)).following
      (.called (.attach target server share) :: reply.log.map .logged)
  | detach target next, host =>
    let reply := m.detach target host
    (run m (next reply.result) (host.after reply)).following
      (.called (.detach target) :: reply.log.map .logged)

/-- A run is its first action and the run of what remains. -/
theorem run_of_step (m : Mounter σ) {p q : Procedure α} {host host' : Host σ}
    {seen : List Happening} (h : p.step m host = some (q, host', seen)) :
    p.run m host = (q.run m host').following seen := by
  cases p <;> simp only [step, Option.some.injEq, Prod.mk.injEq, reduceCtorEq] at h <;>
    obtain ⟨rfl, rfl, rfl⟩ := h <;> rfl

/-- What holds of a procedure if it holds of whatever one action can make of it holds of every
procedure. -/
theorem step_induction (m : Mounter σ) {motive : Procedure α → Prop}
    (h : ∀ p, (∀ q host host' seen, p.step m host = some (q, host', seen) → motive q) → motive p)
    (p : Procedure α) : motive p := by
  induction p with
  | done a => exact h _ fun q host host' seen hs => by cases hs
  | now s next ih => exact h _ fun q host host' seen hs => by cases hs; exact ih
  | makeDirectory path next ih => exact h _ fun q host host' seen hs => by cases hs; exact ih _
  | isDirectory path next ih => exact h _ fun q host host' seen hs => by cases hs; exact ih _
  | removeDirectory path next ih => exact h _ fun q host host' seen hs => by cases hs; exact ih _
  | removeAll path next ih => exact h _ fun q host host' seen hs => by cases hs; exact ih _
  | attach target server share next ih =>
    exact h _ fun q host host' seen hs => by cases hs; exact ih _
  | detach target next ih => exact h _ fun q host host' seen hs => by cases hs; exact ih _

theorem eq_done_of_step {m : Mounter σ} {p : Procedure α} {host : Host σ}
    (h : p.step m host = none) : ∃ a, p = done a := by
  cases p with
  | done a => exact ⟨a, rfl⟩
  | now | makeDirectory | isDirectory | removeDirectory | removeAll | attach | detach =>
    simp [step] at h

/-- What every action keeps is kept by a whole run. The invariant may speak of what remains to be
done, of the host and of what could be seen so far. -/
theorem run_induction (m : Mounter σ) {Inv : Procedure α → Host σ → List Happening → Prop}
    (hstep : ∀ {p q : Procedure α} {host host' : Host σ} {seen earlier : List Happening},
      Inv p host earlier → p.step m host = some (q, host', seen) → Inv q host' (earlier ++ seen))
    {p : Procedure α} {host : Host σ} {earlier : List Happening} (h : Inv p host earlier) :
    Inv (done (p.run m host).answer) (p.run m host).host (earlier ++ (p.run m host).trace) := by
  induction p using step_induction m generalizing host earlier with
  | h p ih =>
    cases hs : p.step m host with
    | none =>
      obtain ⟨a, rfl⟩ := eq_done_of_step hs
      simpa [run] using h
    | some result =>
      obtain ⟨q, host', seen⟩ := result
      rw [run_of_step m hs, Outcome.following, ← List.append_assoc]
      exact ih q host host' seen hs (hstep h hs)

theorem run_bind (m : Mounter σ) (p : Procedure α) (f : α → Procedure β) (host : Host σ) :
    (p >>= f).run m host =
      ((f (p.run m host).answer).run m (p.run m host).host).following (p.run m host).trace := by
  change (p.bind f).run m host = _
  induction p generalizing host with
  | done a => rfl
  | now s next ih => simp [bind, run, ih, Outcome.following]
  | makeDirectory p next ih => simp [bind, run, ih]
  | isDirectory p next ih => simp [bind, run, ih]
  | removeDirectory p next ih => simp [bind, run, ih]
  | removeAll p next ih => simp [bind, run, ih]
  | attach target server share next ih => simp [bind, run, ih, Outcome.following]
  | detach target next ih => simp [bind, run, ih, Outcome.following]

theorem run_map (m : Mounter σ) (f : α → β) (p : Procedure α) (host : Host σ) :
    (f <$> p).run m host =
      ⟨f (p.run m host).answer, (p.run m host).host, (p.run m host).trace⟩ := by
  rw [map_eq_pure_bind, run_bind]
  simp [pure, run, Outcome.following]

/-- Accepts a refused directory if there is one at the path already. -/
def acceptExisting (p : Path) : Except Fault Unit → Procedure (Except Fault Unit)
  | .ok () => done (.ok ())
  | .error fault =>
    isDirectory p fun there => done (if there then .ok () else .error fault)

/-- Makes a directory whose names are given last name first, and before it those above it that are
missing. The empty path needs nothing. -/
def createDirectoriesFrom (anchor : Anchor) (trailing : Bool) :
    List String → Procedure (Except Fault Unit)
  | [] =>
    if anchor = .here then done (.ok ())
    else makeDirectory ⟨anchor, [], trailing⟩ (acceptExisting ⟨anchor, [], trailing⟩)
  | name :: above =>
    let p : Path := ⟨anchor, (name :: above).reverse, trailing⟩
    makeDirectory p fun
      | .error .notFound =>
        (createDirectoriesFrom anchor false above).bind fun
          | .ok () => makeDirectory p (acceptExisting p)
          | .error fault => done (.error fault)
      | result => acceptExisting p result

/-- Makes a directory and those above it that are missing. A directory that exists already, also
one that something else has made in the meantime, is as good as a new one. -/
def createDirectories (p : Path) : Procedure (Except Fault Unit) :=
  createDirectoriesFrom p.anchor p.trailing p.names.reverse

end Procedure
end NfsProvisioner
