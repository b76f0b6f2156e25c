import NfsProvisioner.Proofs.Directories
import NfsProvisioner.Workflow.Dropping

/-!
# What comes of a procedure that is dropped

It depends on the guard. If there is none, or one that has been told, nothing is left to the
background and nothing is called any more (`fate_of_unguarded`, `calls_fate`). What is under way is
work on files (`filesOnly_underWay`) and goes on alone, under any schedule in the same way
(`Crew.run_single`). The same holds outside a runtime (`fate_of_guarded_outside`).

Inside a runtime a guard that has not been told has the export detached (`fate_of_guarded_inside`).
What is under way and the detaching take turns in some order, which `Interleaved` describes without
a schedule, and a single action takes effect at one of a few moments (`DetachedMeanwhile`).
-/
namespace NfsProvisioner

variable {σ α β : Type}

namespace Procedure

theorem filesOnly_underWay (n : Nat) (p : Procedure α) : (p.underWay n).FilesOnly := by
  induction n generalizing p with
  | zero => cases p <;> trivial
  | succ n ih =>
    cases p with
    | done | now | attach | detach => trivial
    | makeDirectory | isDirectory | removeDirectory | removeAll => exact fun _ => ih _

variable {m : Mounter σ} {p q : Procedure α} {host host' : Host σ} {seen : List Happening}

theorem step_bind (hs : p.step m host = some (q, host', seen)) (f : α → Procedure β) :
    (p.bind f).step m host = some (q.bind f, host', seen) := by
  cases p <;> simp only [step, Option.some.injEq, Prod.mk.injEq, reduceCtorEq] at hs <;>
    obtain ⟨rfl, rfl, rfl⟩ := hs <;> rfl

/-- An action on files leaves nothing but work on files to be done, and cannot be seen. -/
theorem step_of_filesOnly (hp : p.FilesOnly) (hs : p.step m host = some (q, host', seen)) :
    q.FilesOnly ∧ seen = [] := by
  cases p with
  | done a => cases hs
  | now | attach | detach => exact hp.elim
  | makeDirectory | isDirectory | removeDirectory | removeAll =>
    cases hs
    exact ⟨hp _, rfl⟩

/-- As long as there is work on files to be done, a procedure waits for that and for nothing
else. -/
theorem waits_of_filesOnly (hp : p.FilesOnly) (hs : p.step m host = some (q, host', seen))
    (f : α → Procedure β) :
    (p.bind f).call? = none ∧ (p.bind f).answer? = none ∧
      ∀ s : Standing σ, Running.advance (p.bind f) s = ⟨s, p.bind f⟩ := by
  cases p with
  | done a => cases hs
  | now | attach | detach => exact hp.elim
  | makeDirectory | isDirectory | removeDirectory | removeAll => exact ⟨rfl, rfl, fun _ => rfl⟩

end Procedure

namespace Running

variable {m : Mounter σ}

/-- While a procedure works on files, nothing but its host changes from one action to the next. -/
theorem resume_of_filesOnly {p q : Procedure α} {s : Standing σ} {host' : Host σ}
    {seen : List Happening} (hp : p.FilesOnly) (hs : p.step m s.host = some (q, host', seen))
    (f : α → Procedure β) :
    resume m ⟨s, p.bind f⟩ = some (advance (q.bind f) { s with host := host' }) := by
  obtain ⟨-, rfl⟩ := Procedure.step_of_filesOnly hp hs
  obtain ⟨hcall, -, -⟩ := Procedure.waits_of_filesOnly hp hs f
  simp [resume, Procedure.step_bind hs, hcall]

theorem after_succ {r r' : Running σ α} (h : r.resume m = some r') (n : Nat) :
    r.after m (n + 1) = r'.after m n := by
  rw [after, h]

theorem after_done (s : Standing σ) (answer : α) (n : Nat) :
    after m n ⟨s, .done answer⟩ = ⟨s, .done answer⟩ := by
  cases n <;> rfl

theorem after_add (r : Running σ α) (a b : Nat) : r.after m (a + b) = (r.after m a).after m b := by
  induction a generalizing r with
  | zero => rw [Nat.zero_add, after]
  | succ a ih =>
    rw [Nat.succ_add, after, after]
    cases hr : r.resume m with
    | none =>
      cases b with
      | zero => rfl
      | succ b => rw [after, hr]
    | some r' => exact ih r'

/-- Work on files comes to its end after some number of actions. -/
theorem exists_after_of_filesOnly {p : Procedure α} (hp : p.FilesOnly) (f : α → Procedure β)
    (s : Standing σ) :
    ∃ n, (advance (p.bind f) s).after m n =
      advance (f (p.run m s.host).answer) { s with host := (p.run m s.host).host } := by
  induction p using Procedure.step_induction m generalizing s with
  | h p ih =>
    cases hs : p.step m s.host with
    | none =>
      obtain ⟨a, rfl⟩ := Procedure.eq_done_of_step hs
      exact ⟨0, rfl⟩
    | some result =>
      obtain ⟨q, host', seen⟩ := result
      obtain ⟨hq, rfl⟩ := Procedure.step_of_filesOnly hp hs
      obtain ⟨-, -, hadvance⟩ := Procedure.waits_of_filesOnly hp hs f
      obtain ⟨n, hn⟩ := ih q s.host host' [] hs hq { s with host := host' }
      refine ⟨n + 1, ?_⟩
      rw [hadvance, after_succ (resume_of_filesOnly hp hs f), hn, Procedure.run_of_step m hs]
      rfl

end Running

namespace Crew

variable {m : Mounter σ}

theorem run_cons (crew : Crew σ α) (i : Nat) (schedule : List Nat) :
    crew.run m (i :: schedule) = (crew.turn m i).run m schedule :=
  rfl

theorem turn_of_step {crew : Crew σ α} {i : Nat} {p q : Procedure α} {host : Host σ}
    {seen : List Happening} (hp : crew.members[i]? = some p)
    (hs : p.step m crew.host = some (q, host, seen)) :
    crew.turn m i = ⟨crew.members.set i q, host, crew.trace ++ seen.map (Prod.mk i)⟩ := by
  simp [turn, hp, hs]

theorem turn_of_done {crew : Crew σ α} {i : Nat} {p : Procedure α}
    (hp : crew.members[i]? = some p) (hs : p.step m crew.host = none) : crew.turn m i = crew := by
  simp [turn, hp, hs]

/-- A member that is alone does the same under every schedule. -/
theorem run_single (p : Procedure α) (host : Host σ) (trace : List (Nat × Happening))
    (schedule : List Nat) :
    run m ⟨[p], host, trace⟩ schedule =
      ⟨[(p.run m host).answer], (p.run m host).host,
        trace ++ (p.run m host).trace.map (Prod.mk 0)⟩ := by
  induction schedule generalizing p host trace with
  | nil => simp [run, follow, finishFrom]
  | cons i schedule ih =>
    match i with
    | i + 1 => exact ih p host trace
    | 0 =>
      rw [run_cons]
      cases hs : p.step m host with
      | none =>
        rw [turn_of_done rfl hs]
        exact ih p host trace
      | some result =>
        obtain ⟨q, host', seen⟩ := result
        rw [turn_of_step rfl hs, List.set_cons_zero, ih, Procedure.run_of_step m hs]
        simp [Outcome.following]

end Crew

/-- Two procedures go from where they are to their ends, their actions in some order. -/
inductive Interleaved (m : Mounter σ) :
    Procedure α → Procedure α → Host σ → Host σ → List Happening → Prop where
  | ended (a b : α) (host : Host σ) : Interleaved m (.done a) (.done b) host host []
  | first {p p' q : Procedure α} {host host' last : Host σ} {seen trace : List Happening}
      (hs : p.step m host = some (p', host', seen)) (h : Interleaved m p' q host' last trace) :
      Interleaved m p q host last (seen ++ trace)
  | second {p q q' : Procedure α} {host host' last : Host σ} {seen trace : List Happening}
      (hs : q.step m host = some (q', host', seen)) (h : Interleaved m p q' host' last trace) :
      Interleaved m p q host last (seen ++ trace)

namespace Interleaved

variable {m : Mounter σ} {p q : Procedure α} {host last : Host σ} {trace : List Happening}

theorem symm (h : Interleaved m p q host last trace) : Interleaved m q p host last trace := by
  induction h with
  | ended a b host => exact ended b a host
  | first hs _ ih => exact second hs ih
  | second hs _ ih => exact first hs ih

/-- When one of them is done, the other runs to its end. -/
theorem done_iff {a : α} :
    Interleaved m (.done a) q host last trace ↔
      last = (q.run m host).host ∧ trace = (q.run m host).trace := by
  induction q using Procedure.step_induction m generalizing host last trace with
  | h q ih =>
    constructor
    · intro h
      cases h with
      | ended => exact ⟨rfl, rfl⟩
      | first hs => cases hs
      | second hs h =>
        obtain ⟨rfl, rfl⟩ := (ih _ _ _ _ hs).1 h
        rw [Procedure.run_of_step m hs]
        exact ⟨rfl, rfl⟩
    · rintro ⟨rfl, rfl⟩
      cases hs : q.step m host with
      | none =>
        obtain ⟨b, rfl⟩ := Procedure.eq_done_of_step hs
        exact ended a b host
      | some result =>
        obtain ⟨q', host', seen⟩ := result
        rw [Procedure.run_of_step m hs]
        exact second hs ((ih q' host host' seen hs).2 ⟨rfl, rfl⟩)

/-- One after the other is an order, too. -/
theorem one_by_one (p q : Procedure α) (host : Host σ) :
    Interleaved m p q host (q.run m (p.run m host).host).host
      ((p.run m host).trace ++ (q.run m (p.run m host).host).trace) := by
  induction p using Procedure.step_induction m generalizing host with
  | h p ih =>
    cases hs : p.step m host with
    | none =>
      obtain ⟨a, rfl⟩ := Procedure.eq_done_of_step hs
      exact done_iff.2 ⟨rfl, rfl⟩
    | some result =>
      obtain ⟨p', host', seen⟩ := result
      rw [Procedure.run_of_step m hs, Outcome.following, List.append_assoc]
      exact first hs (ih p' host host' seen hs host')

/-- What two procedures come to under a schedule they come to in some order. -/
theorem of_run (p q : Procedure α) (host : Host σ) (trace : List (Nat × Happening))
    (schedule : List Nat) :
    let left := Crew.run m ⟨[p, q], host, trace⟩ schedule
    ∃ seen, left.trace.map Prod.snd = trace.map Prod.snd ++ seen ∧
      Interleaved m p q host left.host seen := by
  induction schedule generalizing p q host trace with
  | nil =>
    refine ⟨_, ?_, one_by_one p q host⟩
    simp [Crew.run, Crew.follow, Crew.finishFrom, Function.comp_def]
  | cons i schedule ih =>
    rw [Crew.run_cons]
    match i with
    | i + 2 => exact ih p q host trace
    | 0 =>
      cases hs : p.step m host with
      | none =>
        rw [Crew.turn_of_done rfl hs]
        exact ih p q host trace
      | some result =>
        obtain ⟨p', host', seen⟩ := result
        obtain ⟨later, htrace, h⟩ := ih p' q host' (trace ++ seen.map (Prod.mk 0))
        rw [Crew.turn_of_step rfl hs]
        refine ⟨seen ++ later, htrace.trans ?_, first hs h⟩
        simp [Function.comp_def]
    | 1 =>
      cases hs : q.step m host with
      | none =>
        rw [Crew.turn_of_done rfl hs]
        exact ih p q host trace
      | some result =>
        obtain ⟨q', host', seen⟩ := result
        obtain ⟨later, htrace, h⟩ := ih p q' host' (trace ++ seen.map (Prod.mk 1))
        rw [Crew.turn_of_step rfl hs]
        refine ⟨seen ++ later, htrace.trans ?_, second hs h⟩
        simp [Function.comp_def]

section

-- A member that has a single action left, which cannot be seen.
variable {p q : Procedure Unit} {action : Host σ → Host σ}
  (hp : ∀ host, p.step m host = some (.done (), action host, []))

include hp

/-- The other one runs to its end after that action. -/
theorem after_single {p' : Procedure Unit} {host' : Host σ} {seen : List Happening}
    (hs : p.step m host = some (p', host', seen)) (h : Interleaved m p' q host' last trace) :
    seen = [] ∧ last = (q.run m (action host)).host ∧ trace = (q.run m (action host)).trace := by
  cases (hp host).symm.trans hs
  exact ⟨rfl, done_iff.1 h⟩

/-- When the other one is done, that action is left. -/
theorem single_last (h : Interleaved m p (.done ()) host last trace) :
    last = action host ∧ trace = [] := by
  obtain ⟨rfl, rfl⟩ := done_iff.1 h.symm
  rw [Procedure.run_of_step m (hp host)]
  exact ⟨rfl, rfl⟩

end

end Interleaved

/-- When an action takes effect that is under way while an export is detached. -/
inductive Moment where
  | beforeDetaching
  | beforeRemoving
  | atLast
  | never
deriving DecidableEq, Repr

/-- The action, if this is its moment. -/
def Moment.act (moment now : Moment) (action : Host σ → Host σ) (host : Host σ) : Host σ :=
  if moment = now then action host else host

/-- An export has been detached while an action on files was under way, which took effect at one
moment or not at all. If detaching has succeeded then the mount point has been removed if it was
empty, and nothing else has been removed. If it has failed then this has been logged. -/
def DetachedMeanwhile (m : Mounter σ) (target : Path) (action : Host σ → Host σ)
    (host last : Host σ) (trace : List Happening) : Prop :=
  ∃ moment : Moment,
    let ready := moment.act .beforeDetaching action host
    let reply := m.detach target ready
    let seen := Happening.called (.detach target) :: reply.log.map .logged
    let detached := moment.act .beforeRemoving action (ready.after reply)
    match reply.result with
    | .error e =>
      trace = seen ++ [.logged (Procedure.detachFailed target e)] ∧
        last = moment.act .atLast action detached
    | .ok () =>
      let removed := (detached.removeDirectory target).2
      trace = seen ∧ last = moment.act .atLast action removed ∧
        (removed ≠ detached → detached.tree.LosesEmpty removed.tree detached.cwd target)

namespace DetachedMeanwhile

variable {m : Mounter σ} {target : Path} {action : Host σ → Host σ} {p : Procedure Unit}
  {host last : Host σ} {trace : List Happening}

/-- The action need not take effect at all. -/
theorem of_never (action : Host σ → Host σ) (host : Host σ) :
    DetachedMeanwhile m target action host ((Procedure.detachBestEffort target).run m host).host
      ((Procedure.detachBestEffort target).run m host).trace := by
  refine ⟨.never, ?_⟩
  rw [Procedure.run_detachBestEffort]
  cases hreply : (m.detach target host).result with
  | error e => simp [Moment.act, hreply]
  | ok => simpa [Moment.act, hreply] using Host.losesEmpty_of_removeDirectory

/-- Only the target is detached, and once. -/
theorem calls (h : DetachedMeanwhile m target action host last trace) :
    trace.filterMap Happening.call? = [.detach target] := by
  obtain ⟨moment, h⟩ := h
  dsimp only at h
  split at h
  · rw [h.1]
    simp [-List.filterMap_map]
  · rw [h.1]
    simp [-List.filterMap_map]

/-- A single action takes effect at one of the moments, in whatever order it comes. -/
theorem of_interleaved (hp : ∀ host, p.step m host = some (.done (), action host, []))
    (h : Interleaved m p (.detachBestEffort target) host last trace) :
    DetachedMeanwhile m target action host last trace := by
  -- Either one may come first, and again whenever something of the detaching has been done.
  cases h with
  | first hs h =>
    obtain ⟨rfl, rfl, rfl⟩ := Interleaved.after_single hp hs h
    refine ⟨.beforeDetaching, ?_⟩
    rw [Procedure.run_detachBestEffort]
    cases hreply : (m.detach target (action host)).result with
    | error e => simp [Moment.act, hreply]
    | ok => simpa [Moment.act, hreply] using Host.losesEmpty_of_removeDirectory
  | second hs h =>
    cases hs
    cases hreply : (m.detach target host).result with
    | error e =>
      rw [hreply] at h
      cases h with
      | first hs h =>
        obtain ⟨rfl, rfl, rfl⟩ := Interleaved.after_single hp hs h
        exact ⟨.beforeRemoving, by simp [Moment.act, hreply, Procedure.log, Procedure.run,
          Statement.seen, Outcome.following]⟩
      | second hs h =>
        cases hs
        obtain ⟨rfl, rfl⟩ := Interleaved.single_last hp h
        exact ⟨.atLast, by simp [Moment.act, hreply, Statement.seen]⟩
    | ok =>
      rw [hreply] at h
      cases h with
      | first hs h =>
        obtain ⟨rfl, rfl, rfl⟩ := Interleaved.after_single hp hs h
        refine ⟨.beforeRemoving, ?_⟩
        simpa [Moment.act, hreply, Procedure.removeMountPoint, Procedure.run] using
          Host.losesEmpty_of_removeDirectory
      | second hs h =>
        simp only [Procedure.removeMountPoint, Procedure.step, Option.some.injEq,
          Prod.mk.injEq] at hs
        obtain ⟨rfl, rfl, rfl⟩ := hs
        obtain ⟨rfl, rfl⟩ := Interleaved.single_last hp h
        refine ⟨.atLast, ?_⟩
        simpa [Moment.act, hreply] using Host.losesEmpty_of_removeDirectory

end DetachedMeanwhile

namespace Standing

/-- There is no guard, or one that has been told. -/
def Unguarded (s : Standing σ) : Prop :=
  ∀ guard ∈ s.guard, guard.released = true

theorem unguarded_of_released {s : Standing σ} {target : Path}
    (h : s.guard = some ⟨target, true⟩) : s.Unguarded := by
  intro guard hguard
  cases h.symm.trans hguard
  rfl

theorem unguarded_of_none {s : Standing σ} (h : s.guard = none) : s.Unguarded := by
  intro guard hguard
  cases h.symm.trans hguard

/-- The calls that could be seen are those that have returned. -/
def Accounted (s : Standing σ) : Prop :=
  s.trace.filterMap Happening.call? = s.returned.map Receipt.call

theorem accounted_carryOut {s : Standing σ} (h : s.Accounted) (statement : Statement) :
    (s.carryOut statement).Accounted := by
  cases statement with
  | log event => simpa [Accounted, carryOut] using h
  | guard | markReleased => exact h
  | leaveGuard =>
    rw [carryOut, dropGuard]
    cases s.guard with
    | none => exact h
    | some guard => simpa [Accounted, -List.filterMap_map] using h

/-- Nothing comes of a guard that has been told. -/
theorem dropGuard_of_unguarded {s : Standing σ} (h : s.Unguarded) (inRuntime : Bool) :
    s.dropGuard inRuntime = { s with guard := none } := by
  obtain ⟨host, guard, returned, background, trace⟩ := s
  cases guard with
  | none => rfl
  | some guard =>
    have hreleased : guard.released = true := h guard rfl
    simp [dropGuard, Guard.drop, hreleased]

end Standing

namespace Running

variable {m : Mounter σ} {r : Running σ α}

theorem accounted_advance {s : Standing σ} (h : s.Accounted) (p : Procedure α) :
    (advance p s).Accounted := by
  induction p generalizing s with
  | now statement next ih => exact ih (Standing.accounted_carryOut h statement)
  | done | makeDirectory | isDirectory | removeDirectory | removeAll | attach | detach => exact h

theorem accounted_resume {r' : Running σ α} (h : r.Accounted) (hr : r.resume m = some r') :
    r'.Accounted := by
  obtain ⟨s, p⟩ := r
  have hp : s.trace.filterMap Happening.call? = s.returned.map Receipt.call := h
  cases p <;> simp only [resume, Procedure.step, Option.map_none, Option.map_some, reduceCtorEq,
    Option.some.injEq] at hr <;> subst hr <;> refine accounted_advance ?_ _ <;>
    simp [Standing.Accounted, Procedure.call?, hp, -List.filterMap_map]

/-- What could be seen of a procedure accounts for its calls at every time. -/
theorem accounted_after (h : r.Accounted) (n : Nat) : (r.after m n).Accounted := by
  induction n generalizing r with
  | zero => exact h
  | succ n ih =>
    rw [after]
    cases hr : r.resume m with
    | none => exact h
    | some r' => exact ih (accounted_resume h hr)

theorem accounted_start (p : Procedure α) (host : Host σ) : (start p host).Accounted := by
  have hnew : Standing.Accounted { host } := rfl
  exact accounted_advance hnew p

theorem guard_quit (r : Running σ α) (unfinished : Mounter σ) :
    (r.quit unfinished).guard = r.guard := by
  rw [quit]
  cases r.rest.call? <;> rfl

theorem background_quit (r : Running σ α) (unfinished : Mounter σ) :
    (r.quit unfinished).background = r.background := by
  rw [quit]
  cases r.rest.call? <;> rfl

/-- Without a guard that could leave something to the background, what is under way goes on
alone. -/
theorem fate_of_unguarded (hguard : r.Unguarded) (hbackground : r.background = [])
    (d : Dropping σ) :
    r.fate m d =
      ⟨r.rest.answer?, ((r.rest.underWay d.carried).run m (r.quit d.unfinished).host).host,
        (r.quit d.unfinished).trace⟩ := by
  have hquit : (r.quit d.unfinished).Unguarded := by
    rw [Standing.Unguarded, guard_quit]
    exact hguard
  rw [fate, drop, Standing.dropGuard_of_unguarded hquit]
  dsimp only
  rw [background_quit, hbackground, Crew.run_single,
    Procedure.trace_of_filesOnly (Procedure.filesOnly_underWay _ _)]
  simp [Function.comp_def]

/-- Nothing can be dropped of a procedure that is done. -/
theorem fate_of_done {s : Standing σ} {answer : α} (hguard : s.guard = none)
    (hbackground : s.background = []) (d : Dropping σ) :
    fate m ⟨s, .done answer⟩ d = ⟨some answer, s.host, s.trace⟩ := by
  rw [fate_of_unguarded (Standing.unguarded_of_none hguard) hbackground]
  cases d.carried <;> rfl

/-- Nothing is called any more, either. -/
theorem calls_fate (hguard : r.Unguarded) (hbackground : r.background = []) (hr : r.Accounted)
    (d : Dropping σ) : (r.fate m d).calls = r.issued := by
  rw [fate_of_unguarded hguard hbackground, Outcome.calls, quit, issued, ← hr]
  cases r.rest.call? with
  | none => simp
  | some call => simp [-List.filterMap_map]

/-- Outside a runtime a guard that has not been told only logs that. -/
theorem fate_of_guarded_outside {target : Path} (hguard : r.guard = some ⟨target, false⟩)
    (hbackground : r.background = []) (hcall : r.rest.call? = none) {d : Dropping σ}
    (hd : d.inRuntime = false) :
    r.fate m d =
      ⟨r.rest.answer?, ((r.rest.underWay d.carried).run m r.host).host,
        r.trace ++ [.logged (abandoned target false)]⟩ := by
  simp only [fate, drop, quit, hcall, Standing.dropGuard, hguard, Guard.drop, hd, hbackground]
  simp [Crew.run_single, Procedure.trace_of_filesOnly (Procedure.filesOnly_underWay _ _),
    Function.comp_def]

/-- Inside a runtime it has the export detached beside what is under way. -/
theorem fate_of_guarded_inside {target : Path} (hguard : r.guard = some ⟨target, false⟩)
    (hbackground : r.background = []) (hcall : r.rest.call? = none) {d : Dropping σ}
    (hd : d.inRuntime = true) :
    ∃ seen, (r.fate m d).trace = r.trace ++ .logged (abandoned target true) :: seen ∧
      Interleaved m (r.rest.underWay d.carried) (.detachBestEffort target) r.host
        (r.fate m d).host seen := by
  simp only [fate, drop, quit, hcall, Standing.dropGuard, hguard, Guard.drop, hd, hbackground]
  obtain ⟨seen, htrace, h⟩ := Interleaved.of_run (m := m) (r.rest.underWay d.carried)
    (.detachBestEffort target) r.host
    ((r.trace ++ [Happening.logged (abandoned target true)]).map (Prod.mk 0)) d.schedule
  refine ⟨seen, htrace.trans ?_, h⟩
  simp [Function.comp_def]

end Running

end NfsProvisioner
