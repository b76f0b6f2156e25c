import NfsProvisioner.Workflow.Procedure

/-!
# Procedures at the same time

Several procedures share one host and take turns in any order, one action at a time. A schedule says
whose turn it is; turns of procedures that are done are skipped, and once the schedule is used up
the procedures are finished one after another. Every way in which procedures can interleave is some
schedule.
-/
namespace NfsProvisioner

/-- Procedures that share a host, and what could be seen of them so far: each happening with the
number of the procedure that it comes from. -/
structure Crew (σ α : Type) where
  members : List (Procedure α)
  host : Host σ
  trace : List (Nat × Happening) := []

namespace Crew

variable {σ α : Type}

/-- One action of one member. -/
def turn (m : Mounter σ) (crew : Crew σ α) (i : Nat) : Crew σ α :=
  match crew.members[i]? with
  | none => crew
  | some p =>
    match p.step m crew.host with
    | none => crew
    | some (p', host, seen) =>
      ⟨crew.members.set i p', host, crew.trace ++ seen.map (Prod.mk i)⟩

/-- The turns of a schedule. -/
def follow (m : Mounter σ) (crew : Crew σ α) (schedule : List Nat) : Crew σ α :=
  schedule.foldl (turn m) crew

/-- Runs one member to its end, without the others. -/
def complete (m : Mounter σ) (crew : Crew σ α) (i : Nat) : Crew σ α :=
  match crew.members[i]? with
  | none => crew
  | some p =>
    let o := p.run m crew.host
    ⟨crew.members.set i (.done o.answer), o.host, crew.trace ++ o.trace.map (Prod.mk i)⟩

/-- Runs the given members to their ends, one after another, and numbers them from `i` on. -/
def finishFrom (m : Mounter σ) (i : Nat) : List (Procedure α) → Host σ →
    List α × Host σ × List (Nat × Happening)
  | [], host => ([], host, [])
  | p :: rest, host =>
    let o := p.run m host
    let (answers, last, trace) := finishFrom m (i + 1) rest o.host
    (o.answer :: answers, last, o.trace.map (Prod.mk i) ++ trace)

/-- What comes of a crew: the answers of its members, the host, and what could be seen. -/
structure Result (σ α : Type) where
  answers : List α
  host : Host σ
  trace : List (Nat × Happening)

/-- Runs a crew by a schedule. -/
def run (m : Mounter σ) (crew : Crew σ α) (schedule : List Nat) : Result σ α :=
  let crew := crew.follow m schedule
  let (answers, host, trace) := finishFrom m 0 crew.members crew.host
  ⟨answers, host, crew.trace ++ trace⟩

/-- The schedule by which `size` members take turns one after another, `rounds` times. -/
def roundRobin (size rounds : Nat) : List Nat :=
  (List.replicate rounds (List.range size)).flatten

/-- What could be seen of one member. -/
def Result.seenOf (r : Result σ α) (i : Nat) : List Happening :=
  (r.trace.filter (·.1 == i)).map Prod.snd

end Crew
end NfsProvisioner
