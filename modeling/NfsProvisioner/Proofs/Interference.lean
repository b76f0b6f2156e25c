import NfsProvisioner.Proofs.Confinement
import NfsProvisioner.Workflow.Interleaving

/-!
# Procedures under interference

What a procedure comes to while others act in between. Each member of a crew relies on something
about the changes that the others make to the tree and guarantees something about its own
(`Pact`). `Procedure.Assures` says of a procedure that it keeps its guarantee and ends as intended
as long as it can rely on the others, one clause for each kind of action. If what each member
guarantees is what the others rely on, then every member ends as intended under every schedule
(`Crew.run_assures`).

Running members one after another is a schedule like any other (`Crew.run_complete`).
-/
namespace NfsProvisioner

variable {σ α β : Type}

/-- What stays the same while procedures run: where relative paths start, and what the mounter
replies for each target. -/
structure Backdrop where
  cwd : Location
  attached : Path → Except Error Unit
  detached : Path → Except Error Unit

/-- A mounter that leaves files alone and replies by the target only. It may remember and log what
it likes. -/
structure Mounter.Suits (m : Mounter σ) (b : Backdrop) : Prop extends m.KeepsFiles where
  attached : ∀ target server share host,
    (m.attach target server share host).result = b.attached target
  detached : ∀ target host, (m.detach target host).result = b.detached target

theorem Mounter.suits_inert (cwd : Location) :
    (inert : Mounter σ).Suits ⟨cwd, fun _ => .ok (), fun _ => .ok ()⟩ where
  toKeepsFiles := keepsFiles_inert
  attached _ _ _ _ := rfl
  detached _ _ := rfl

/-- What a member of a crew expects of the changes of others, and what it promises of its own. -/
structure Pact where
  rely : Tree → Tree → Prop
  guarantee : Tree → Tree → Prop
  rely_refl : ∀ t, rely t t
  rely_trans : ∀ {t u v}, rely t u → rely u v → rely t v

/-- The pact of a member that does nothing and expects nothing. -/
def Pact.idle : Pact :=
  ⟨fun _ _ => True, fun _ _ => False, fun _ => trivial, fun _ _ => trivial⟩

/-- A change of the tree keeps the guarantee, and whatever it comes to has the property. -/
def Pact.Permits (pact : Pact) (t : Tree) (result : Except Fault Tree)
    (property : Except Fault Unit → Tree → Prop) : Prop :=
  match result with
  | .ok t' => pact.guarantee t t' ∧ property (.ok ()) t'
  | .error fault => property (.error fault) t

theorem Pact.Permits.mono {pact : Pact} {t : Tree} {result : Except Fault Tree}
    {property property' : Except Fault Unit → Tree → Prop} (h : pact.Permits t result property)
    (himp : ∀ reply t', property reply t' → property' reply t') :
    pact.Permits t result property' := by
  cases result with
  | ok t' => exact ⟨h.1, himp _ _ h.2⟩
  | error fault => exact himp _ _ h

namespace Procedure

/-- From a tree, and with some calls made, the procedure keeps its guarantee and ends with its goal
met, if the others keep to what it relies on. The goal speaks of the answer, of all calls that have
been made and of the tree, whenever the tree is looked at. -/
def Assures (b : Backdrop) (pact : Pact) (goal : α → List Call → Tree → Prop) :
    Procedure α → List Call → Tree → Prop
  | done a, calls, t => ∀ t', pact.rely t t' → goal a calls t'
  | now _ next, calls, t => next.Assures b pact goal calls t
  | makeDirectory p next, calls, t => ∀ t', pact.rely t t' →
    pact.Permits t' (t'.makeDirectory b.cwd p) fun reply => (next reply).Assures b pact goal calls
  | isDirectory p next, calls, t => ∀ t', pact.rely t t' →
    (next (t'.isDirectory b.cwd p)).Assures b pact goal calls t'
  | removeDirectory p next, calls, t => ∀ t', pact.rely t t' →
    pact.Permits t' (t'.removeDirectory b.cwd p) fun reply => (next reply).Assures b pact goal calls
  | removeAll p next, calls, t => ∀ t', pact.rely t t' →
    pact.Permits t' (t'.removeAll b.cwd p) fun reply => (next reply).Assures b pact goal calls
  | attach target server share next, calls, t =>
    (next (b.attached target)).Assures b pact goal (calls ++ [.attach target server share]) t
  | detach target next, calls, t =>
    (next (b.detached target)).Assures b pact goal (calls ++ [.detach target]) t

variable {b : Backdrop} {pact : Pact} {goal goal' : α → List Call → Tree → Prop}
  {p : Procedure α} {calls : List Call} {t t' : Tree}

/-- Others may act first. -/
theorem Assures.of_rely (h : p.Assures b pact goal calls t) (ht : pact.rely t t') :
    p.Assures b pact goal calls t' := by
  induction p generalizing calls with
  | done a => exact fun u hu => h u (pact.rely_trans ht hu)
  | now s next ih => exact ih h
  | makeDirectory | isDirectory | removeDirectory | removeAll =>
    exact fun u hu => h u (pact.rely_trans ht hu)
  | attach target server share next ih => exact ih _ h
  | detach target next ih => exact ih _ h

theorem Assures.bind {f : α → Procedure β} {final : β → List Call → Tree → Prop}
    (h : p.Assures b pact (fun a calls t => (f a).Assures b pact final calls t) calls t) :
    (p.bind f).Assures b pact final calls t := by
  induction p generalizing calls t with
  | done a => exact h t (pact.rely_refl t)
  | now s next ih => exact ih h
  | isDirectory path next ih => exact fun u hu => ih _ (h u hu)
  | makeDirectory path next ih | removeDirectory path next ih | removeAll path next ih =>
    exact fun u hu => (h u hu).mono fun reply _ hreply => ih reply hreply
  | attach target server share next ih => exact ih _ h
  | detach target next ih => exact ih _ h

theorem Assures.mono (h : p.Assures b pact goal calls t)
    (himp : ∀ a calls t, goal a calls t → goal' a calls t) : p.Assures b pact goal' calls t := by
  induction p generalizing calls t with
  | done a => exact fun u hu => himp _ _ _ (h u hu)
  | now s next ih => exact ih h
  | isDirectory path next ih => exact fun u hu => ih _ (h u hu)
  | makeDirectory path next ih | removeDirectory path next ih | removeAll path next ih =>
    exact fun u hu => (h u hu).mono fun reply _ hreply => ih reply hreply
  | attach target server share next ih => exact ih _ h
  | detach target next ih => exact ih _ h

variable {m : Mounter σ} {q : Procedure α} {host host' : Host σ} {seen : List Happening}

theorem permits_change {result : Except Fault Tree}
    {property : Except Fault Unit → Tree → Prop} (h : pact.Permits host.tree result property) :
    (host.change result).2.cwd = host.cwd ∧
      ((host.change result).2.tree = host.tree ∨
        pact.guarantee host.tree (host.change result).2.tree) ∧
      property (host.change result).1 (host.change result).2.tree := by
  cases result with
  | ok tree => exact ⟨rfl, .inr h.1, h.2⟩
  | error fault => exact ⟨rfl, .inl rfl, h⟩

/-- One action keeps the guarantee, and what remains ends as intended. -/
theorem assures_step (hm : m.Suits b) (hcwd : host.cwd = b.cwd)
    (h : p.Assures b pact goal calls host.tree) (hs : p.step m host = some (q, host', seen)) :
    host'.cwd = b.cwd ∧ (host'.tree = host.tree ∨ pact.guarantee host.tree host'.tree) ∧
      q.Assures b pact goal (calls ++ seen.filterMap Happening.call?) host'.tree := by
  cases p with
  | done a => cases hs
  | now s next =>
    cases hs
    rw [Statement.calls_seen, List.append_nil]
    exact ⟨hcwd, .inl rfl, h⟩
  | isDirectory path next =>
    cases hs
    rw [List.filterMap_nil, List.append_nil, hcwd]
    exact ⟨rfl, .inl rfl, h _ (pact.rely_refl _)⟩
  | makeDirectory path next =>
    have hpermits := h _ (pact.rely_refl _)
    rw [← hcwd] at hpermits
    cases hs
    rw [List.filterMap_nil, List.append_nil, ← hcwd]
    exact permits_change hpermits
  | removeDirectory path next =>
    have hpermits := h _ (pact.rely_refl _)
    rw [← hcwd] at hpermits
    cases hs
    rw [List.filterMap_nil, List.append_nil, ← hcwd]
    exact permits_change hpermits
  | removeAll path next =>
    have hpermits := h _ (pact.rely_refl _)
    rw [← hcwd] at hpermits
    cases hs
    rw [List.filterMap_nil, List.append_nil, ← hcwd]
    exact permits_change hpermits
  | attach target server share next =>
    cases hs
    have htree := hm.attach target server share host
    rw [Host.after, hm.attached, htree, calls_called]
    exact ⟨hcwd, .inl rfl, h⟩
  | detach target next =>
    cases hs
    have htree := hm.detach target host
    rw [Host.after, hm.detached, htree, calls_called]
    exact ⟨hcwd, .inl rfl, h⟩

/-- On its own, a procedure ends as intended. -/
theorem run_assures (hm : m.Suits b) (hcwd : host.cwd = b.cwd)
    (h : p.Assures b pact goal [] host.tree) :
    goal (p.run m host).answer (p.run m host).calls (p.run m host).host.tree := by
  let Inv (q : Procedure α) (host : Host σ) (seen : List Happening) : Prop :=
    host.cwd = b.cwd ∧ q.Assures b pact goal (seen.filterMap Happening.call?) host.tree
  have hstep {q q' : Procedure α} {host host' : Host σ} {seen earlier : List Happening}
      (hinv : Inv q host earlier) (hs : q.step m host = some (q', host', seen)) :
      Inv q' host' (earlier ++ seen) := by
    obtain ⟨hcwd', -, hq'⟩ := assures_step hm hinv.1 hinv.2 hs
    refine ⟨hcwd', ?_⟩
    rw [List.filterMap_append]
    exact hq'
  have hstart : Inv p host [] := ⟨hcwd, h⟩
  obtain ⟨-, hdone⟩ := run_induction m hstep hstart
  exact hdone _ (pact.rely_refl _)

end Procedure

namespace Crew

/-- The calls of one member. -/
def callsIn (trace : List (Nat × Happening)) (i : Nat) : List Call :=
  ((trace.filter (·.1 == i)).map Prod.snd).filterMap Happening.call?

theorem callsIn_append (trace more : List (Nat × Happening)) (i : Nat) :
    callsIn (trace ++ more) i = callsIn trace i ++ callsIn more i := by
  simp [callsIn]

theorem callsIn_self (i : Nat) (seen : List Happening) :
    callsIn (seen.map (Prod.mk i)) i = seen.filterMap Happening.call? := by
  have hall : (seen.map (Prod.mk i)).filter (·.1 == i) = seen.map (Prod.mk i) :=
    List.filter_eq_self.2 (by simp)
  rw [callsIn, hall, List.map_map]
  simp [Function.comp_def]

theorem callsIn_other {i j : Nat} (h : i ≠ j) (seen : List Happening) :
    callsIn (seen.map (Prod.mk i)) j = [] := by
  simp [callsIn, List.filter_map, Function.comp_def, h]

section Schedules

variable {m : Mounter σ} {crew : Crew σ α}

theorem follow_append (m : Mounter σ) (crew : Crew σ α) (schedule more : List Nat) :
    crew.follow m (schedule ++ more) = (crew.follow m schedule).follow m more :=
  List.foldl_append

theorem length_turn (m : Mounter σ) (crew : Crew σ α) (i : Nat) :
    (crew.turn m i).members.length = crew.members.length := by
  rw [turn]
  cases crew.members[i]? with
  | none => rfl
  | some p =>
    dsimp only
    cases p.step m crew.host with
    | none => rfl
    | some result => exact List.length_set

theorem length_follow (m : Mounter σ) (crew : Crew σ α) (schedule : List Nat) :
    (crew.follow m schedule).members.length = crew.members.length := by
  induction schedule generalizing crew with
  | nil => rfl
  | cons i rest ih => exact (ih (crew.turn m i)).trans (length_turn m crew i)

/-- A member runs to its end if it is given turns for long enough. -/
theorem complete_eq_follow (m : Mounter σ) (crew : Crew σ α) (i : Nat) :
    ∃ turns, crew.complete m i = crew.follow m (List.replicate turns i) := by
  cases hi : crew.members[i]? with
  | none =>
    refine ⟨0, ?_⟩
    rw [complete, hi]
    rfl
  | some p =>
    induction p using Procedure.step_induction m generalizing crew with
    | h p ih =>
      cases hs : p.step m crew.host with
      | none =>
        obtain ⟨a, rfl⟩ := Procedure.eq_done_of_step hs
        refine ⟨0, ?_⟩
        have hset : crew.members.set i (.done a) = crew.members := by
          obtain ⟨hlt, hget⟩ := List.getElem?_eq_some_iff.1 hi
          rw [← hget, List.set_getElem_self]
        rw [complete, hi]
        dsimp only [Procedure.run]
        rw [hset, List.map_nil, List.append_nil]
        rfl
      | some result =>
        obtain ⟨q, host, seen⟩ := result
        have hlt : i < crew.members.length := (List.getElem?_eq_some_iff.1 hi).1
        have hturn : crew.turn m i =
            ⟨crew.members.set i q, host, crew.trace ++ seen.map (Prod.mk i)⟩ := by
          rw [turn, hi]
          dsimp only
          rw [hs]
        obtain ⟨turns, hturns⟩ := ih q crew.host host seen hs (crew.turn m i) (by
          rw [hturn, List.getElem?_set_self hlt])
        refine ⟨turns + 1, ?_⟩
        rw [List.replicate_succ, follow, List.foldl_cons]
        refine Eq.trans ?_ hturns
        rw [complete, complete, hi, hturn]
        dsimp only
        rw [List.getElem?_set_self hlt, Procedure.run_of_step m hs]
        simp [Outcome.following, List.set_set]

/-- So do all members that have not been finished. -/
theorem finishFrom_eq_follow (m : Mounter σ) (before rest : List (Procedure α)) (host : Host σ)
    (trace : List (Nat × Happening)) :
    let finished := finishFrom m before.length rest host
    ∃ schedule, follow m ⟨before ++ rest, host, trace⟩ schedule =
      ⟨before ++ finished.1.map .done, finished.2.1, trace ++ finished.2.2⟩ := by
  induction rest generalizing before host trace with
  | nil => exact ⟨[], by simp [finishFrom, follow]⟩
  | cons p rest ih =>
    obtain ⟨turns, hturns⟩ := complete_eq_follow m ⟨before ++ p :: rest, host, trace⟩ before.length
    obtain ⟨schedule, hschedule⟩ := ih (before ++ [.done (p.run m host).answer]) (p.run m host).host
      (trace ++ (p.run m host).trace.map (Prod.mk before.length))
    have hcomplete : complete m ⟨before ++ p :: rest, host, trace⟩ before.length =
        ⟨before ++ [.done (p.run m host).answer] ++ rest, (p.run m host).host,
          trace ++ (p.run m host).trace.map (Prod.mk before.length)⟩ := by
      simp [complete]
    refine ⟨List.replicate turns before.length ++ schedule, ?_⟩
    rw [follow_append, ← hturns, hcomplete, hschedule]
    simp [finishFrom]

/-- Every run comes to the turns of some schedule after which every member is done. -/
theorem run_eq_follow (m : Mounter σ) (crew : Crew σ α) (schedule : List Nat) :
    ∃ more, crew.follow m (schedule ++ more) =
      ⟨(crew.run m schedule).answers.map .done, (crew.run m schedule).host,
        (crew.run m schedule).trace⟩ := by
  obtain ⟨more, hmore⟩ := finishFrom_eq_follow m [] (crew.follow m schedule).members
    (crew.follow m schedule).host (crew.follow m schedule).trace
  exact ⟨more, (follow_append m crew schedule more).trans hmore⟩

theorem length_answers (m : Mounter σ) (crew : Crew σ α) (schedule : List Nat) :
    (crew.run m schedule).answers.length = crew.members.length := by
  obtain ⟨more, hmore⟩ := run_eq_follow m crew schedule
  have hlength := length_follow m crew (schedule ++ more)
  rw [hmore] at hlength
  rw [← hlength, List.length_map]

/-- Running members one after another, in whatever order, is running them by some schedule. -/
theorem run_complete (m : Mounter σ) (crew : Crew σ α) (order : List Nat) :
    ∃ schedule, (order.foldl (complete m) crew).run m [] = crew.run m schedule := by
  suffices h : ∃ schedule, order.foldl (complete m) crew = crew.follow m schedule by
    obtain ⟨schedule, hschedule⟩ := h
    exact ⟨schedule, by rw [hschedule]; rfl⟩
  induction order generalizing crew with
  | nil => exact ⟨[], rfl⟩
  | cons i rest ih =>
    obtain ⟨turns, hturns⟩ := complete_eq_follow m crew i
    obtain ⟨schedule, hschedule⟩ := ih (crew.complete m i)
    refine ⟨List.replicate turns i ++ schedule, ?_⟩
    rw [List.foldl_cons, hschedule, hturns, follow_append]

end Schedules

section Bound

variable {b : Backdrop} {pacts : Nat → Pact} {goals : Nat → α → List Call → Tree → Prop}
  {always : Tree → Prop} {m : Mounter σ} {crew : Crew σ α}

/-- Every member of a crew is on its way to its goal. -/
structure Bound (b : Backdrop) (pacts : Nat → Pact) (goals : Nat → α → List Call → Tree → Prop)
    (always : Tree → Prop) (crew : Crew σ α) : Prop where
  cwd : crew.host.cwd = b.cwd
  always : always crew.host.tree
  assures : ∀ i (p : Procedure α), crew.members[i]? = some p →
    p.Assures b (pacts i) (goals i) (callsIn crew.trace i) crew.host.tree

variable (hm : m.Suits b)
  (hpacts : ∀ i j, i < crew.members.length → j < crew.members.length → i ≠ j →
    ∀ t t', (pacts i).guarantee t t' → (pacts j).rely t t')
  (halways : ∀ i t t', i < crew.members.length → (pacts i).guarantee t t' → always t → always t')
include hm hpacts halways

theorem bound_turn (h : crew.Bound b pacts goals always) (i : Nat) :
    (crew.turn m i).Bound b pacts goals always := by
  rw [turn]
  cases hi : crew.members[i]? with
  | none => exact h
  | some p =>
    dsimp only
    have hlt : i < crew.members.length := (List.getElem?_eq_some_iff.1 hi).1
    cases hs : p.step m crew.host with
    | none => exact h
    | some result =>
      obtain ⟨q, host, seen⟩ := result
      obtain ⟨hcwd, hchange, hq⟩ := Procedure.assures_step hm h.cwd (h.assures i p hi) hs
      refine ⟨hcwd, ?_, fun j r hj => ?_⟩
      · rcases hchange with hsame | hguarantee
        · exact hsame ▸ h.always
        · exact halways i _ _ hlt hguarantee h.always
      · dsimp only at hj ⊢
        rw [callsIn_append]
        by_cases hij : i = j
        · subst hij
          rw [List.getElem?_set_self hlt] at hj
          obtain rfl := Option.some.inj hj
          rw [callsIn_self]
          exact hq
        · rw [List.getElem?_set_ne hij] at hj
          have hjlt : j < crew.members.length := (List.getElem?_eq_some_iff.1 hj).1
          rw [callsIn_other hij, List.append_nil]
          refine (h.assures j r hj).of_rely ?_
          rcases hchange with hsame | hguarantee
          · exact hsame ▸ (pacts j).rely_refl _
          · exact hpacts i j hlt hjlt hij _ _ hguarantee

theorem bound_follow (h : crew.Bound b pacts goals always) (schedule : List Nat) :
    (crew.follow m schedule).Bound b pacts goals always := by
  induction schedule generalizing crew with
  | nil => exact h
  | cons i rest ih =>
    have hturn := bound_turn hm hpacts halways h i
    rw [← length_turn m crew i] at hpacts halways
    exact ih hpacts halways hturn

/-- Under every schedule every member ends as intended. -/
theorem run_assures (h : crew.Bound b pacts goals always) (schedule : List Nat) :
    always (crew.run m schedule).host.tree ∧
      ∀ i a, (crew.run m schedule).answers[i]? = some a →
        goals i a (((crew.run m schedule).seenOf i).filterMap Happening.call?)
          (crew.run m schedule).host.tree := by
  obtain ⟨more, hmore⟩ := run_eq_follow m crew schedule
  have hbound := bound_follow hm hpacts halways h (schedule ++ more)
  rw [hmore] at hbound
  refine ⟨hbound.always, fun i a ha => ?_⟩
  have hmember : ((crew.run m schedule).answers.map Procedure.done)[i]? = some (.done a) := by
    rw [List.getElem?_map, ha]
    rfl
  exact hbound.assures i (.done a) hmember _ ((pacts i).rely_refl _)

end Bound
end Crew
end NfsProvisioner
