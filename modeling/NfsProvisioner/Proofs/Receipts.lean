import NfsProvisioner.Proofs.Requests
import NfsProvisioner.Workflow.Interleaving

/-!
# Attached exports are detached exactly once

A mounter can keep a receipt of every call with its result (`Mounter.recording`); nothing else
changes by that. `Procedure.Settles` says of a procedure, for every reply that it may get, that it
detaches what it attaches and nothing else. Both requests for volumes do, so in whatever order their
actions mix, receipts of successful attachments and of detachments come in equal numbers.
-/
namespace NfsProvisioner

variable {σ α : Type}

/-- What a mounter remembers, and the receipts of all calls to it. -/
structure Recorded (σ : Type) where
  mounts : σ
  receipts : List Receipt := []

namespace Host

/-- The host with some receipts. -/
def withReceipts (host : Host σ) (receipts : List Receipt) : Host (Recorded σ) :=
  ⟨host.cwd, host.tree, ⟨host.mounts, receipts⟩⟩

/-- The host without the receipts. -/
def forget (host : Host (Recorded σ)) : Host σ :=
  ⟨host.cwd, host.tree, host.mounts.mounts⟩

end Host

namespace Mounter

/-- Adds a receipt to a reply. -/
def record (call : Call) (receipts : List Receipt) (reply : Reply σ) : Reply (Recorded σ) :=
  ⟨reply.result, reply.tree, ⟨reply.mounts, receipts ++ [⟨call, reply.result⟩]⟩, reply.log⟩

/-- The mounter that does the same and keeps receipts. -/
def recording (m : Mounter σ) : Mounter (Recorded σ) where
  attach target server share host :=
    record (.attach target server share) host.mounts.receipts
      (m.attach target server share host.forget)
  detach target host := record (.detach target) host.mounts.receipts (m.detach target host.forget)

end Mounter

/-- Receipts of attachments at a target that no detachment has followed yet. -/
def outstanding (target : Path) (receipts : List Receipt) : Int :=
  receipts.countP (·.attaches target) - receipts.countP (·.detaches target)

theorem outstanding_append (target : Path) (a b : List Receipt) :
    outstanding target (a ++ b) = outstanding target a + outstanding target b := by
  simp only [outstanding, List.countP_append]
  omega

/-- One for the target that is still to be detached. -/
def due (owed : Option Path) (target : Path) : Int :=
  if owed = some target then 1 else 0

theorem outstanding_attached (target t : Path) (server share : String) :
    outstanding target [⟨.attach t server share, .ok ()⟩] = due (some t) target := by
  by_cases h : t = target <;> simp [outstanding, due, Receipt.attaches, Receipt.detaches, h]

theorem outstanding_refused (target t : Path) (server share : String) (e : Error) :
    outstanding target [⟨.attach t server share, .error e⟩] = 0 := by
  simp [outstanding, Receipt.attaches, Receipt.detaches]

theorem outstanding_detached (target t : Path) (result : Except Error Unit) :
    outstanding target [⟨.detach t, result⟩] = -due (some t) target := by
  by_cases h : t = target <;> simp [outstanding, due, Receipt.attaches, Receipt.detaches, h]

namespace Procedure

/-- A procedure that has `owed` attached, if anything, detaches it and whatever else it attaches,
one at a time and before it is done, however it is replied to. -/
def Settles : Option Path → Procedure α → Prop
  | owed, done _ => owed = none
  | owed, now _ next => next.Settles owed
  | owed, makeDirectory _ next | owed, removeDirectory _ next | owed, removeAll _ next =>
    ∀ result, (next result).Settles owed
  | owed, isDirectory _ next => ∀ there, (next there).Settles owed
  | owed, attach target _ _ next =>
    owed = none ∧ (next (.ok ())).Settles (some target) ∧ ∀ e, (next (.error e)).Settles none
  | owed, detach target next => owed = some target ∧ ∀ result, (next result).Settles none

theorem settles_bind_filesOnly {β : Type} {owed : Option Path} {p : Procedure α}
    {f : α → Procedure β} (hp : p.FilesOnly) (hf : ∀ a, (f a).Settles owed) :
    (p.bind f).Settles owed := by
  induction p with
  | done a => exact hf a
  | now | attach | detach => exact hp.elim
  | makeDirectory _ _ ih | isDirectory _ _ ih | removeDirectory _ _ ih | removeAll _ _ ih =>
    exact fun r => ih r (hp r)

theorem settles_bind {β : Type} {owed : Option Path} {p : Procedure α} {f : α → Procedure β}
    (hp : p.Settles owed) (hf : ∀ a, (f a).Settles none) : (p.bind f).Settles owed := by
  induction p generalizing owed with
  | done a =>
    obtain rfl : owed = none := hp
    exact hf a
  | now s next ih => exact ih hp
  | makeDirectory _ _ ih | isDirectory _ _ ih | removeDirectory _ _ ih | removeAll _ _ ih =>
    exact fun r => ih r (hp r)
  | attach target server share next ih => exact ⟨hp.1, ih _ hp.2.1, fun e => ih _ (hp.2.2 e)⟩
  | detach target next ih => exact ⟨hp.1, fun r => ih r (hp.2 r)⟩

theorem settles_detachBestEffort (target : Path) :
    (detachBestEffort target).Settles (some target) := by
  refine ⟨rfl, fun result => ?_⟩
  cases result with
  | ok => exact fun _ => rfl
  | error e => rfl

theorem settles_release (target : Path) : (release target).Settles (some target) :=
  settles_bind (settles_detachBestEffort target) fun _ => rfl

theorem settles_whileAttached (target : Path) (server share : String) {work : Procedure α}
    (hw : work.FilesOnly) : (whileAttached target server share work).Settles none := by
  refine settles_bind_filesOnly (filesOnly_createDirectories target) fun made => ?_
  cases made with
  | error fault => rfl
  | ok =>
    refine ⟨rfl, ?_, fun e => fun _ => rfl⟩
    exact settles_bind_filesOnly hw fun a =>
      settles_bind (settles_release target) fun _ => rfl

/-- One action changes what is outstanding by what the procedure owes. -/
theorem settles_step {m : Mounter σ} {p q : Procedure α} {owed : Option Path}
    {host host' : Host (Recorded σ)} {seen : List Happening} (hp : p.Settles owed)
    (h : p.step m.recording host = some (q, host', seen)) :
    ∃ owed', q.Settles owed' ∧ ∀ target,
      outstanding target host'.mounts.receipts - due owed' target =
        outstanding target host.mounts.receipts - due owed target := by
  cases p with
  | done a => cases h
  | now s next =>
    cases h
    exact ⟨owed, hp, fun _ => rfl⟩
  | isDirectory path next =>
    cases h
    exact ⟨owed, hp _, fun _ => rfl⟩
  | makeDirectory path next =>
    simp only [step, Host.makeDirectory, Host.change] at h
    split at h <;> cases h <;> exact ⟨owed, hp _, fun _ => rfl⟩
  | removeDirectory path next =>
    simp only [step, Host.removeDirectory, Host.change] at h
    split at h <;> cases h <;> exact ⟨owed, hp _, fun _ => rfl⟩
  | removeAll path next =>
    simp only [step, Host.removeAll, Host.change] at h
    split at h <;> cases h <;> exact ⟨owed, hp _, fun _ => rfl⟩
  | attach t server share next =>
    cases h
    obtain ⟨rfl, hok, herror⟩ := hp
    simp only [Host.after, Mounter.recording, Mounter.record]
    cases (m.attach t server share host.forget).result with
    | ok u =>
      cases u
      refine ⟨some t, hok, fun target => ?_⟩
      simp [outstanding_append, outstanding_attached, due]
    | error e =>
      refine ⟨none, herror e, fun target => ?_⟩
      simp [outstanding_append, outstanding_refused]
  | detach t next =>
    cases h
    obtain ⟨rfl, hnext⟩ := hp
    refine ⟨none, hnext _, fun target => ?_⟩
    simp only [Host.after, Mounter.recording, Mounter.record, outstanding_append,
      outstanding_detached]
    simp [due]
    omega

/-- The run of what remains after an action accounts for the whole run. -/
theorem outstanding_run_of_step {m : Mounter σ} {p q : Procedure α} {owed : Option Path}
    {host host' : Host (Recorded σ)} {seen : List Happening} {target : Path} (hp : p.Settles owed)
    (hs : p.step m.recording host = some (q, host', seen))
    (hq : ∀ {owed' : Option Path}, q.Settles owed' →
      outstanding target (q.run m.recording host').host.mounts.receipts =
        outstanding target host'.mounts.receipts - due owed' target) :
    outstanding target (p.run m.recording host).host.mounts.receipts =
      outstanding target host.mounts.receipts - due owed target := by
  obtain ⟨owed', hq', heq⟩ := settles_step hp hs
  rw [run_of_step m.recording hs]
  exact (hq hq').trans (heq target)

/-- A whole run settles what was owed at its start. -/
theorem outstanding_run {m : Mounter σ} {p : Procedure α} {owed : Option Path} (hp : p.Settles owed)
    (host : Host (Recorded σ)) (target : Path) :
    outstanding target (p.run m.recording host).host.mounts.receipts =
      outstanding target host.mounts.receipts - due owed target := by
  induction p generalizing owed host with
  | done a =>
    obtain rfl : owed = none := hp
    simp [run, due]
  | now s next ih => exact outstanding_run_of_step hp rfl fun hq => ih hq _
  | makeDirectory path next ih => exact outstanding_run_of_step hp rfl fun hq => ih _ hq _
  | isDirectory path next ih => exact outstanding_run_of_step hp rfl fun hq => ih _ hq _
  | removeDirectory path next ih => exact outstanding_run_of_step hp rfl fun hq => ih _ hq _
  | removeAll path next ih => exact outstanding_run_of_step hp rfl fun hq => ih _ hq _
  | attach t server share next ih => exact outstanding_run_of_step hp rfl fun hq => ih _ hq _
  | detach t next ih => exact outstanding_run_of_step hp rfl fun hq => ih _ hq _

end Procedure

namespace Procedure

/-- Keeping receipts changes no action: what remains, the host and what can be seen are the same,
and the new receipts are those of the calls that can be seen. -/
theorem step_recording {m : Mounter σ} {p q : Procedure α} {owed : Option Path}
    {host host' : Host σ} {seen : List Happening} (hp : p.Settles owed)
    (h : p.step m host = some (q, host', seen)) (receipts : List Receipt) :
    ∃ new : List Receipt, new.map Receipt.call = seen.filterMap Happening.call? ∧
      p.step m.recording (host.withReceipts receipts) =
        some (q, host'.withReceipts (receipts ++ new), seen) := by
  cases p with
  | done a => cases h
  | now s next =>
    cases h
    exact ⟨[], by simp, by simp [step, Host.withReceipts]⟩
  | isDirectory path next =>
    cases h
    exact ⟨[], rfl, by simp [step, Host.withReceipts]⟩
  | makeDirectory path next =>
    refine ⟨[], ?_⟩
    simp only [step, Host.makeDirectory, Host.change, Host.withReceipts] at h ⊢
    split at h <;> cases h <;> simp
  | removeDirectory path next =>
    refine ⟨[], ?_⟩
    simp only [step, Host.removeDirectory, Host.change, Host.withReceipts] at h ⊢
    split at h <;> cases h <;> simp
  | removeAll path next =>
    refine ⟨[], ?_⟩
    simp only [step, Host.removeAll, Host.change, Host.withReceipts] at h ⊢
    split at h <;> cases h <;> simp
  | attach t server share next =>
    cases h
    exact ⟨[⟨.attach t server share, (m.attach t server share host).result⟩],
      by simp [Happening.call?, Function.comp_def], rfl⟩
  | detach t next =>
    cases h
    exact ⟨[⟨.detach t, (m.detach t host).result⟩],
      by simp [Happening.call?, Function.comp_def], rfl⟩

/-- What a recorded run has to do with the run itself. -/
structure RunRecorded (m : Mounter σ) (p : Procedure α) (host : Host σ) (receipts : List Receipt)
    (o : Outcome (Recorded σ) α) : Prop where
  answer : o.answer = (p.run m host).answer
  trace : o.trace = (p.run m host).trace
  host : ∃ new : List Receipt, new.map Receipt.call = (p.run m host).calls ∧
    o.host = (p.run m host).host.withReceipts (receipts ++ new)

theorem runRecorded_of_step {m : Mounter σ} {p q : Procedure α} {owed : Option Path}
    {host host' : Host σ} {seen : List Happening} {receipts : List Receipt} (hp : p.Settles owed)
    (h : p.step m host = some (q, host', seen))
    (hq : ∀ {owed' : Option Path} (receipts : List Receipt), q.Settles owed' →
      RunRecorded m q host' receipts (q.run m.recording (host'.withReceipts receipts))) :
    RunRecorded m p host receipts (p.run m.recording (host.withReceipts receipts)) := by
  obtain ⟨new, hnew, hstep⟩ := step_recording hp h receipts
  obtain ⟨owed', hq', -⟩ := settles_step hp hstep
  obtain ⟨answer, trace, later, hlater, hhost⟩ := hq (receipts ++ new) hq'
  rw [run_of_step m.recording hstep]
  refine ⟨?_, ?_, new ++ later, ?_, ?_⟩
  · rw [run_of_step m h]
    exact answer
  · rw [run_of_step m h]
    exact congrArg (seen ++ ·) trace
  · rw [run_of_step m h, calls_following, List.map_append, hnew, hlater]
  · rw [run_of_step m h, ← List.append_assoc]
    exact hhost

theorem run_recording {m : Mounter σ} {p : Procedure α} {owed : Option Path} (hp : p.Settles owed)
    (host : Host σ) (receipts : List Receipt) :
    RunRecorded m p host receipts (p.run m.recording (host.withReceipts receipts)) := by
  induction p generalizing owed host receipts with
  | done a => exact ⟨rfl, rfl, [], rfl, by simp [run]⟩
  | now s next ih => exact runRecorded_of_step hp rfl fun rs hq => ih hq _ rs
  | makeDirectory path next ih => exact runRecorded_of_step hp rfl fun rs hq => ih _ hq _ rs
  | isDirectory path next ih => exact runRecorded_of_step hp rfl fun rs hq => ih _ hq _ rs
  | removeDirectory path next ih => exact runRecorded_of_step hp rfl fun rs hq => ih _ hq _ rs
  | removeAll path next ih => exact runRecorded_of_step hp rfl fun rs hq => ih _ hq _ rs
  | attach t server share next ih => exact runRecorded_of_step hp rfl fun rs hq => ih _ hq _ rs
  | detach t next ih => exact runRecorded_of_step hp rfl fun rs hq => ih _ hq _ rs

end Procedure

namespace Crew

/-- What is still to be detached, all members taken together. -/
def totalDue (owed : List (Option Path)) (target : Path) : Int :=
  owed.count (some target)

theorem totalDue_set {owed : List (Option Path)} {i : Nat} {old : Option Path}
    (h : owed[i]? = some old) (new : Option Path) (target : Path) :
    totalDue (owed.set i new) target = totalDue owed target - due old target + due new target := by
  obtain ⟨hi, rfl⟩ := List.getElem?_eq_some_iff.1 h
  have hpos : owed[i] = some target → 0 < owed.count (some target) := fun heq =>
    List.count_pos_iff.2 (heq ▸ List.getElem_mem hi)
  simp only [totalDue, List.count_set hi, due, beq_iff_eq]
  by_cases hold : owed[i] = some target
  · have := hpos hold
    simp only [hold, if_true]
    split <;> omega
  · simp only [hold, if_false]
    split <;> omega

/-- The members of a crew, each with what it owes, and nothing else is outstanding. -/
structure Balanced (crew : Crew (Recorded σ) α) (accounts : List (Option Path × Procedure α)) :
    Prop where
  members : crew.members = accounts.map Prod.snd
  settles : ∀ a ∈ accounts, a.2.Settles a.1
  total : ∀ target,
    outstanding target crew.host.mounts.receipts = totalDue (accounts.map Prod.fst) target

theorem balanced_turn {m : Mounter σ} {crew : Crew (Recorded σ) α}
    {accounts : List (Option Path × Procedure α)} (h : crew.Balanced accounts) (i : Nat) :
    ∃ accounts', (crew.turn m.recording i).Balanced accounts' := by
  rw [turn, h.members, List.getElem?_map]
  cases ha : accounts[i]? with
  | none => exact ⟨accounts, h⟩
  | some a =>
    dsimp only [Option.map_some]
    cases hs : a.2.step m.recording crew.host with
    | none => exact ⟨accounts, h⟩
    | some result =>
      obtain ⟨q, host, seen⟩ := result
      obtain ⟨owed, hq, heq⟩ := Procedure.settles_step (h.settles a (List.mem_of_getElem? ha)) hs
      refine ⟨accounts.set i (owed, q), ?_, ?_, ?_⟩
      · simp only [List.map_set]
      · intro b hb
        rcases List.mem_or_eq_of_mem_set hb with hb | rfl
        · exact h.settles b hb
        · exact hq
      · intro target
        have hold : (accounts.map Prod.fst)[i]? = some a.1 := by simp [ha]
        rw [List.map_set, totalDue_set hold, ← h.total target]
        have := heq target
        dsimp only
        omega

theorem balanced_follow {m : Mounter σ} {crew : Crew (Recorded σ) α}
    {accounts : List (Option Path × Procedure α)} (h : crew.Balanced accounts)
    (schedule : List Nat) : ∃ accounts', (crew.follow m.recording schedule).Balanced accounts' := by
  induction schedule generalizing crew accounts with
  | nil => exact ⟨accounts, h⟩
  | cons i rest ih =>
    obtain ⟨accounts', h'⟩ := balanced_turn (m := m) h i
    exact ih h'

theorem outstanding_finishFrom {m : Mounter σ} {accounts : List (Option Path × Procedure α)}
    (h : ∀ a ∈ accounts, a.2.Settles a.1) (i : Nat) (host : Host (Recorded σ)) (target : Path) :
    outstanding target
        (finishFrom m.recording i (accounts.map Prod.snd) host).2.1.mounts.receipts =
      outstanding target host.mounts.receipts - totalDue (accounts.map Prod.fst) target := by
  induction accounts generalizing i host with
  | nil => simp [finishFrom, totalDue]
  | cons a rest ih =>
    have hrun := Procedure.outstanding_run (m := m) (h a (by simp)) host target
    have hrest := ih (fun b hb => h b (List.mem_cons_of_mem a hb)) (i + 1)
      (a.2.run m.recording host).host
    rw [hrun] at hrest
    have hdue : totalDue ((a :: rest).map Prod.fst) target =
        totalDue (rest.map Prod.fst) target + due a.1 target := by
      simp only [totalDue, due, List.map_cons, List.count_cons, beq_iff_eq]
      split <;> omega
    rw [hdue, show ∀ x y z : Int, x - (y + z) = x - z - y by omega]
    exact hrest

/-- Whatever the order of their actions, members that settle everything leave nothing
outstanding. -/
theorem outstanding_run {m : Mounter σ} {members : List (Procedure α)}
    (h : ∀ p ∈ members, p.Settles none) (host : Host σ) (schedule : List Nat) (target : Path) :
    outstanding target
      (run m.recording ⟨members, host.withReceipts [], []⟩ schedule).host.mounts.receipts = 0 := by
  have start : (⟨members, host.withReceipts [], []⟩ : Crew (Recorded σ) α).Balanced
      (members.map fun p => (none, p)) := by
    refine ⟨by simp [Function.comp_def], ?_, fun target => ?_⟩
    · intro a ha
      obtain ⟨p, hp, rfl⟩ := List.mem_map.1 ha
      exact h p hp
    · simp [outstanding, totalDue, Host.withReceipts, Function.comp_def, List.map_const',
        List.count_replicate]
  obtain ⟨accounts, hb⟩ := balanced_follow (m := m) start schedule
  simp only [run]
  rw [hb.members, outstanding_finishFrom hb.settles, hb.total target]
  omega

/-- A crew on a recording mounter beside the same crew on the mounter itself. -/
structure Shadows (crew : Crew σ α) (shadow : Crew (Recorded σ) α) : Prop where
  members : shadow.members = crew.members
  settles : ∀ p ∈ crew.members, ∃ owed, p.Settles owed
  trace : shadow.trace = crew.trace
  host : ∃ receipts : List Receipt,
    receipts.map Receipt.call = (crew.trace.map Prod.snd).filterMap Happening.call? ∧
    shadow.host = crew.host.withReceipts receipts

theorem shadows_turn {m : Mounter σ} {crew : Crew σ α} {shadow : Crew (Recorded σ) α}
    (h : crew.Shadows shadow) (i : Nat) : (crew.turn m i).Shadows (shadow.turn m.recording i) := by
  obtain ⟨receipts, hcalls, hhost⟩ := h.host
  simp only [turn, h.members]
  cases hi : crew.members[i]? with
  | none => exact h
  | some p =>
    obtain ⟨owed, hp⟩ := h.settles p (List.mem_of_getElem? hi)
    dsimp only
    rw [hhost]
    cases hs : p.step m crew.host with
    | none =>
      cases p with
      | done a => exact h
      | now | makeDirectory | isDirectory | removeDirectory | removeAll | attach | detach =>
        simp [Procedure.step] at hs
    | some result =>
      obtain ⟨q, host, seen⟩ := result
      obtain ⟨new, hnew, hstep⟩ := Procedure.step_recording hp hs receipts
      obtain ⟨owed', hq, -⟩ := Procedure.settles_step hp hstep
      rw [hstep]
      refine ⟨rfl, ?_, by rw [h.trace], receipts ++ new, ?_, rfl⟩
      · intro r hr
        rcases List.mem_or_eq_of_mem_set hr with hr | rfl
        · exact h.settles r hr
        · exact ⟨owed', hq⟩
      · simp [hcalls, hnew, Function.comp_def]

theorem shadows_follow {m : Mounter σ} {crew : Crew σ α} {shadow : Crew (Recorded σ) α}
    (h : crew.Shadows shadow) (schedule : List Nat) :
    (crew.follow m schedule).Shadows (shadow.follow m.recording schedule) := by
  induction schedule generalizing crew shadow with
  | nil => exact h
  | cons i rest ih => exact ih (shadows_turn h i)

theorem finishFrom_recording {m : Mounter σ} {members : List (Procedure α)}
    (h : ∀ p ∈ members, ∃ owed, p.Settles owed) (i : Nat) (host : Host σ)
    (receipts : List Receipt) :
    let plain := finishFrom m i members host
    let kept := finishFrom m.recording i members (host.withReceipts receipts)
    kept.1 = plain.1 ∧ kept.2.2 = plain.2.2 ∧ ∃ new : List Receipt,
      new.map Receipt.call = (plain.2.2.map Prod.snd).filterMap Happening.call? ∧
      kept.2.1 = plain.2.1.withReceipts (receipts ++ new) := by
  induction members generalizing i host receipts with
  | nil => exact ⟨rfl, rfl, [], rfl, by simp [finishFrom]⟩
  | cons p rest ih =>
    obtain ⟨owed, hp⟩ := h p (by simp)
    obtain ⟨answer, trace, new, hnew, hhost⟩ :=
      Procedure.run_recording (m := m) hp host receipts
    obtain ⟨answers, traces, later, hlater, hlast⟩ :=
      ih (fun q hq => h q (List.mem_cons_of_mem p hq)) (i + 1) (p.run m host).host
        (receipts ++ new)
    simp only [finishFrom, answer, trace, hhost, answers, traces, hlast, true_and]
    refine ⟨new ++ later, ?_, by rw [List.append_assoc]⟩
    simp only [Outcome.calls] at hnew
    simp [hnew, hlater, Function.comp_def]

/-- Keeping receipts changes nothing about a crew, and the receipts are those of its calls. -/
theorem run_recording {m : Mounter σ} {members : List (Procedure α)}
    (h : ∀ p ∈ members, ∃ owed, p.Settles owed) (host : Host σ) (schedule : List Nat) :
    let plain := run m ⟨members, host, []⟩ schedule
    let kept := run m.recording ⟨members, host.withReceipts [], []⟩ schedule
    kept.answers = plain.answers ∧ kept.trace = plain.trace ∧ kept.host.forget = plain.host ∧
      kept.host.mounts.receipts.map Receipt.call =
        (plain.trace.map Prod.snd).filterMap Happening.call? := by
  have start : (⟨members, host, []⟩ : Crew σ α).Shadows ⟨members, host.withReceipts [], []⟩ :=
    ⟨rfl, h, rfl, [], rfl, rfl⟩
  obtain ⟨hmembers, hsettles, htrace, receipts, hcalls, hhost⟩ :=
    shadows_follow (m := m) start schedule
  obtain ⟨answers, traces, new, hnew, hlast⟩ := finishFrom_recording (m := m) hsettles 0
    (follow m ⟨members, host, []⟩ schedule).host receipts
  simp only [run, hmembers, hhost, htrace, answers, traces, hlast, true_and]
  refine ⟨rfl, ?_⟩
  simp [Host.withReceipts, hcalls, hnew]

end Crew

namespace Controller

theorem settles_closing (c : Controller) (p : Placement) (r : VolumeRequest)
    (result : Except Error (Except Fault Unit)) : (c.closing p r result).Settles none := by
  cases result with
  | error e => rfl
  | ok result =>
    rw [closing]
    induction closingEvents p r result with
    | nil => rfl
    | cons event events ih => exact ih

theorem settles_serve (c : Controller) (r : VolumeRequest) : (c.serve r).Settles none := by
  rw [serve_eq]
  split
  · rfl
  · exact Procedure.settles_bind
      (Procedure.settles_whileAttached _ _ _ (Procedure.filesOnly_work r _))
      fun result => settles_closing c _ r result

theorem calls_release (m : Mounter σ) (target : Path) (host : Host σ) :
    ((Procedure.release target).run m host).calls = [.detach target] := by
  rw [Procedure.run_release]
  dsimp only
  cases (m.detach target host).result <;> simp [Outcome.calls, Happening.call?]

/-- The calls of the work on a volume, by what making the mount point and attaching come to. -/
theorem calls_onVolume (c : Controller) (m : Mounter σ) (p : Placement) (r : VolumeRequest)
    (host : Host σ) :
    let o := (c.onVolume p r.work).run m host
    let target := c.mountPoint p
    let made := (Procedure.createDirectories target).run m host
    match made.answer with
    | .error fault =>
      o.calls = [] ∧
        o.answer = .error (.mountFailed target.text ("create mount point: " ++ fault.message))
    | .ok () =>
      match (m.attach target p.server p.baseSharePath made.host).result with
      | .error e => o.calls = [.attach target p.server p.baseSharePath] ∧ o.answer = .error e
      | .ok () =>
        o.calls = [.attach target p.server p.baseSharePath, .detach target] ∧
          ∃ result, o.answer = .ok result := by
  have hleft (host : Host σ) :
      ((Procedure.removeMountPoint (c.mountPoint p)).run m host).trace = [] :=
    Procedure.trace_of_filesOnly (Procedure.filesOnly_removeMountPoint _) m host
  have hwork (host : Host σ) : ((r.work (c.volumePath p)).run m host).trace = [] :=
    Procedure.trace_of_filesOnly (Procedure.filesOnly_work r _) m host
  have hrelease (host : Host σ) :
      ((Procedure.release (c.mountPoint p)).run m host).trace.filterMap Happening.call? =
        [.detach (c.mountPoint p)] := calls_release m _ host
  simp only [onVolume, Procedure.run_whileAttached]
  generalize (Procedure.createDirectories (c.mountPoint p)).run m host = made
  cases made.answer with
  | error fault => simp [Outcome.calls]
  | ok =>
    dsimp only
    generalize m.attach (c.mountPoint p) p.server p.baseSharePath made.host = reply
    cases reply.result with
    | error e => simp [Outcome.calls, hleft, Happening.call?]
    | ok => simp [Outcome.calls, hwork, hrelease, Happening.call?]

theorem conclusion_ok_or_internal (c : Controller) (p : Placement) (r : VolumeRequest)
    (result : Except Fault Unit) :
    (∃ v, c.conclusion p r result = .ok v) ∨
      ∃ reason, c.conclusion p r result = .error (.internal reason) := by
  cases r with
  | create request => cases result <;> simp [conclusion]
  | delete id =>
    rcases result with fault | ⟨⟩
    · cases fault <;> simp [conclusion]
    · simp [conclusion]

/-- A request that is refused makes no calls to the mounter, and neither does one whose mount point
cannot be made. A failed attachment is the only call and its error the answer. After a successful
attachment there is one detachment and nothing else. So whatever requests share a mounter and
however their actions mix, successful attachments and detachments of a target come in equal
numbers; the receipts that show it are those of all calls, and keeping them changes nothing. -/
theorem detached_once_per_attachment (c : Controller) (m : Mounter σ) :
    (∀ (host : Host σ) (r : VolumeRequest),
      let o := (c.serve r).run m host
      match c.screen r with
      | .error answer => o.calls = [] ∧ o.answer = answer
      | .ok p =>
        let target := c.working.child p.name
        let made := (Procedure.createDirectories target).run m host
        match made.answer with
        | .error fault =>
          o.calls = [] ∧
            o.answer = .error (.mountFailed target.text ("create mount point: " ++ fault.message))
        | .ok () =>
          match (m.attach target p.server ("/" ++ p.baseDir) made.host).result with
          | .error e =>
            o.calls = [.attach target p.server ("/" ++ p.baseDir)] ∧ o.answer = .error e
          | .ok () =>
            o.calls = [.attach target p.server ("/" ++ p.baseDir), .detach target] ∧
              ((∃ v, o.answer = .ok v) ∨ ∃ reason, o.answer = .error (.internal reason))) ∧
    ∀ (host : Host σ) (requests : List VolumeRequest) (schedule : List Nat),
      let plain := Crew.run m ⟨requests.map c.serve, host, []⟩ schedule
      let kept := Crew.run m.recording ⟨requests.map c.serve, host.withReceipts [], []⟩ schedule
      let receipts := kept.host.mounts.receipts
      (kept.answers = plain.answers ∧ kept.trace = plain.trace ∧ kept.host.forget = plain.host ∧
        receipts.map Receipt.call = (plain.trace.map Prod.snd).filterMap Happening.call?) ∧
      ∀ target, receipts.countP (·.detaches target) = receipts.countP (·.attaches target) := by
  refine ⟨fun host r => ?_, fun host requests schedule => ⟨?_, fun target => ?_⟩⟩
  · dsimp only
    rw [run_serve]
    cases c.screen r with
    | error answer => exact ⟨rfl, rfl⟩
    | ok p =>
      have h := calls_onVolume c m p r host
      simp only [mountPoint, Placement.baseSharePath] at h
      dsimp only
      generalize (Procedure.createDirectories (c.working.child p.name)).run m host = made at h ⊢
      cases hmade : made.answer with
      | error fault =>
        simp only [hmade] at h
        rw [h.2]
        exact ⟨h.1, rfl⟩
      | ok =>
        simp only [hmade] at h
        cases hreply :
            (m.attach (c.working.child p.name) p.server ("/" ++ p.baseDir) made.host).result with
        | error e =>
          simp only [hreply] at h
          rw [h.2]
          exact ⟨h.1, rfl⟩
        | ok =>
          simp only [hreply] at h
          obtain ⟨hcalls, result, hanswer⟩ := h
          rw [hanswer]
          refine ⟨?_, conclusion_ok_or_internal c p r result⟩
          simp only [Outcome.calls] at hcalls ⊢
          rw [List.filterMap_append, hcalls, Happening.filterMap_call?_map_logged, List.append_nil]
  · refine Crew.run_recording (fun p hp => ?_) host schedule
    obtain ⟨r, -, rfl⟩ := List.mem_map.1 hp
    exact ⟨none, settles_serve c r⟩
  · have settled : ∀ p ∈ requests.map c.serve, p.Settles none := fun p hp => by
      obtain ⟨r, -, rfl⟩ := List.mem_map.1 hp
      exact settles_serve c r
    have h := Crew.outstanding_run (m := m) settled host schedule target
    rw [outstanding] at h
    omega

end Controller
end NfsProvisioner
