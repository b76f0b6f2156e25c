import NfsProvisioner.Proofs.Lockstep

/-!
# Concurrent requests

Requests for volumes of different names do not interfere. Each works at and below its own mount
point, where nobody else goes, and what they share is the way to the working directory, which each
makes if it is missing. So under every schedule each request is answered as if it were alone and
makes the same calls (`Settled`), and all schedules lead to one tree.
-/
namespace NfsProvisioner

open NfsProvisioner.Tree

variable {σ : Type}

namespace Procedure

variable {t₀ t s : Tree} {working : Path} {cwd : Location} {name : String}
  {calls calls' made made' : List Call}

/-- Wherever the mount point could be made, it is the same. -/
theorem twin_of_reached (hname : PlainName name)
    (h : Reached t₀ cwd (working.child name) working name calls (.ok ()) made t)
    (h' : Reached t₀ cwd (working.child name) working name calls' (.ok ()) made' s) :
    t.Twin s working cwd name := by
  obtain ⟨hpass, hpoint⟩ := (passable_child_iff hname.ne_up).1 (h.passable rfl)
  obtain ⟨hpass', hpoint'⟩ := (passable_child_iff hname.ne_up).1 (h'.passable rfl)
  refine ⟨hpass, hpass', Open.linkless (.inr hpoint), fun r => ?_⟩
  by_cases hr : r = []
  · rw [hr, List.append_nil, hpoint, hpoint']
  · rw [← Path.location_child hname.ne_up, h.underway.below r hr, h'.underway.below r hr]

/-- Wherever it could not be made, nothing has changed there. -/
theorem below_of_not_reached {fault : Fault} (hname : PlainName name) (hdown : ".." ∉ working.names)
    (h : Reached t₀ cwd (working.child name) working name calls (.error fault) made t)
    (r : Location) :
    t.get? (working.location cwd ++ [name] ++ r) =
      t₀.get? (working.location cwd ++ [name] ++ r) := by
  rw [← Path.location_child hname.ne_up]
  by_cases hr : r = []
  · rw [hr, List.append_nil]
    rcases h.underway.way _ Path.location_mem_way with heq | ⟨hmakeable, -, -⟩
    · exact heq
    rcases hmakeable.of_child with ⟨-, hmakeable⟩ | hmakeable
    · have hverdict := h.verdict
      rw [(verdict_ok_iff (Path.not_up_mem_child hdown hname.ne_up)).2 hmakeable] at hverdict
      cases hverdict
    · have hway := hmakeable.mem_way
      rw [Path.location_child hname.ne_up] at hway
      exact absurd (List.prefix_refl _) (Path.not_below_of_mem_way hdown hway (by simp))
  · exact h.underway.below r hr

end Procedure

namespace Controller

/-- What the requests of a crew may expect of each other. One that is answered at once does nothing
that others could notice. -/
def pact (c : Controller) (t₀ : Tree) (cwd : Location) (r : VolumeRequest) : Pact :=
  match c.screen r with
  | .ok p => t₀.sharing cwd (c.working.child p.name)
  | .error _ => .idle

/-- A request has come to what it comes to when it runs alone, at and below its mount point if it
has one. What can be made of the way there has been made, if the host takes the text of the mount
point at all. -/
structure Settled (c : Controller) (m : Mounter σ) (host : Host σ) (r : VolumeRequest)
    (answer : VolumeAnswer) (made : List Call) (t : Tree) : Prop where
  answer : answer = ((c.serve r).run m host).answer
  calls : made = ((c.serve r).run m host).calls
  below : ∀ p, c.screen r = .ok p → ∀ k,
    t.get? (c.working.location host.cwd ++ [p.name] ++ k) =
      ((c.serve r).run m host).host.tree.get? (c.working.location host.cwd ++ [p.name] ++ k)
  above : ∀ p, c.screen r = .ok p → checkOperand (c.working.child p.name).text = .ok () →
    ∀ l, host.tree.MakeableAt host.cwd c.working l → t.get? l = some .directory

/-- Away from all mount points nothing but the way to the working directory has changed. -/
def Undisturbed (c : Controller) (requests : List VolumeRequest) (cwd : Location) (t₀ t : Tree) :
    Prop :=
  ∀ l, (∀ r ∈ requests, ∀ p, c.screen r = .ok p → ¬ c.working.location cwd ++ [p.name] <+: l) →
    t.get? l = t₀.get? l ∨ t₀.get? l = none ∧ t.get? l = some .directory ∧
      t₀.MakeableAt cwd c.working l ∧
      ∃ r ∈ requests, ∃ p, c.screen r = .ok p ∧
        checkOperand (c.working.child p.name).text = .ok ()

variable {c : Controller} {m : Mounter σ} {b : Backdrop} {t₀ t t' : Tree} {mounts : σ}
  {r r' : VolumeRequest} {requests : List VolumeRequest} {cwd : Location}

section

variable (hm : m.Suits b) (hnormal : c.working.Normal) (hdown : ".." ∉ c.working.names)
include hm hnormal hdown

/-- Whatever others do in the meantime, a request that works on a volume comes to the same as
alone. -/
theorem assures_work {p : Placement} (hscreen : c.screen r = .ok p)
    (hlinks : t₀.Unlinked b.cwd (c.working.child p.name)) :
    (c.serve r).Assures b (t₀.sharing b.cwd (c.working.child p.name))
      (c.Settled m ⟨b.cwd, t₀, mounts⟩ r) [] t₀ := by
  have hname := (plain_of_screen hscreen).name
  obtain ⟨rest, heq, hstop, hconfined⟩ := serve_split hscreen
  have hup := Path.not_up_mem_child hdown hname.ne_up
  have hpoint := hnormal.child hname.isName
  obtain ⟨made, s, halone, hreached⟩ :=
    Procedure.run_createDirectories_reached hup hpoint hlinks hm mounts rfl
  have hrun : (c.serve r).run m ⟨b.cwd, t₀, mounts⟩ = (rest made).run m ⟨b.cwd, s, mounts⟩ := by
    rw [heq]
    have hbind := Procedure.run_bind m (Procedure.createDirectories (c.working.child p.name)) rest
      ⟨b.cwd, t₀, mounts⟩
    refine hbind.trans ?_
    rw [halone]
    rfl
  have hplacement {q : Placement} (hq : c.screen r = .ok q) : p = q :=
    Except.ok.inj (hscreen.symm.trans hq)
  rw [heq]
  have hmade : (Procedure.createDirectories (c.working.child p.name)).Assures b
      (t₀.sharing b.cwd (c.working.child p.name))
      (Procedure.Reached t₀ b.cwd (c.working.child p.name) c.working p.name []) [] t₀ :=
    Procedure.assures_createDirectories hup hpoint hlinks rfl .refl
  refine Procedure.Assures.bind (hmade.mono fun a calls t h => ?_)
  obtain rfl := h.calls
  obtain rfl : made = a := hreached.verdict.trans h.verdict.symm
  cases made with
  | ok =>
    have hwork : (rest (.ok ())).Assures b (t₀.sharing b.cwd (c.working.child p.name))
        (Procedure.Agrees ((rest (.ok ())).run m ⟨b.cwd, s, mounts⟩) c.working b.cwd p.name [])
        [] t :=
      Procedure.assures_twin hname hdown hm hnormal hconfined
        (Procedure.twin_of_reached hname h hreached)
    refine hwork.mono fun a made t hagrees => ?_
    rw [← hrun] at hagrees
    refine ⟨hagrees.answer, hagrees.calls, fun q hq => ?_, fun q hq _ l hl => ?_⟩
    · obtain rfl := hplacement hq
      exact hagrees.twin.below
    · exact hagrees.twin.passable l hl.mem_way
  | error fault =>
    obtain ⟨answer, hanswer⟩ := hstop fault
    rw [hanswer] at hrun ⊢
    refine fun u hrely => ⟨by rw [hrun]; rfl, by rw [hrun]; rfl, fun q hq k => ?_,
      fun q hq htext l hl => ?_⟩
    · obtain rfl := hplacement hq
      have hpoint := hrely.1 k
      rw [Path.location_child hname.ne_up] at hpoint
      rw [hrun, hpoint, Procedure.below_of_not_reached hname hdown h,
        ← Procedure.below_of_not_reached hname hdown hreached]
      rfl
    · obtain rfl := hplacement hq
      have hl' : t₀.MakeableAt b.cwd (c.working.child p.name) l := hl.child
      obtain ⟨way, habove, rfl, hmakeable⟩ := hl'
      exact Procedure.passable_of_rely habove hrely (h.above htext way habove hmakeable) _
        Path.location_mem_way

/-- Whatever others do in the meantime, a request comes to the same as alone. -/
theorem assures_serve (hlinks : ∀ p, c.screen r = .ok p →
      t₀.Unlinked b.cwd (c.working.child p.name)) :
    (c.serve r).Assures b (c.pact t₀ b.cwd r) (c.Settled m ⟨b.cwd, t₀, mounts⟩ r) [] t₀ := by
  rw [pact]
  cases hscreen : c.screen r with
  | ok p => exact assures_work hm hnormal hdown hscreen (hlinks p hscreen)
  | error answer =>
    have hserve : c.serve r = .done answer := by
      rw [serve_eq, hscreen]
    rw [hserve]
    refine fun u _ => ⟨by rw [hserve]; rfl, by rw [hserve]; rfl, fun p hp => ?_, fun p hp => ?_⟩
    · rw [hscreen] at hp
      cases hp
    · rw [hscreen] at hp
      cases hp

end

/-- What one request does is nothing that another one minds. -/
theorem rely_of_guarantee (hdown : ".." ∉ c.working.names)
    (hapart : ∀ p p', c.screen r = .ok p → c.screen r' = .ok p' → p.name ≠ p'.name)
    (h : (c.pact t₀ cwd r).guarantee t t') : (c.pact t₀ cwd r').rely t t' := by
  rw [pact] at h ⊢
  cases hscreen : c.screen r with
  | error answer =>
    rw [hscreen] at h
    exact h.elim
  | ok p =>
    cases hscreen' : c.screen r' with
    | error answer => exact trivial
    | ok p' =>
      rw [hscreen] at h
      exact Tree.sharing_apart hdown (plain_of_screen hscreen).name.ne_up
        (plain_of_screen hscreen').name.ne_up (hapart p p' hscreen hscreen') h

/-- A change by one of the requests. -/
theorem Undisturbed.change (h : c.Undisturbed requests cwd t₀ t) (hr : r ∈ requests)
    (hchange : (c.pact t₀ cwd r).guarantee t t') : c.Undisturbed requests cwd t₀ t' := by
  intro l hl
  rw [pact] at hchange
  cases hscreen : c.screen r with
  | error answer =>
    rw [hscreen] at hchange
    exact hchange.elim
  | ok p =>
    rw [hscreen] at hchange
    have hname := (plain_of_screen hscreen).name
    have hbeside : ¬ (c.working.child p.name).location cwd <+: l := by
      rw [Path.location_child hname.ne_up]
      exact hl r hr p hscreen
    rcases hchange l hbeside with heq | ⟨htext, hmakeable, hnone, hthere⟩
    · rw [heq]
      exact h l hl
    · refine .inr ⟨?_, hthere, ?_, r, hr, p, hscreen, htext⟩
      · rcases h l hl with heq | ⟨hnone₀, -⟩
        · rw [← heq, hnone]
        · exact hnone₀
      · rcases hmakeable.of_child with ⟨rfl, -⟩ | hmakeable
        · exact absurd (List.prefix_refl _) hbeside
        · exact hmakeable

/-- Where all requests have settled there is nothing left that two trees could differ in. -/
theorem Undisturbed.unique {host : Host σ} (h : c.Undisturbed requests host.cwd host.tree t)
    (h' : c.Undisturbed requests host.cwd host.tree t')
    (hsettled : ∀ (i : Nat) r, requests[i]? = some r →
      ∃ answer made, c.Settled m host r answer made t)
    (hsettled' : ∀ (i : Nat) r, requests[i]? = some r →
      ∃ answer made, c.Settled m host r answer made t') : t = t' := by
  refine ext_get? fun l => ?_
  by_cases hbelow : ∃ r ∈ requests, ∃ p, c.screen r = .ok p ∧
      c.working.location host.cwd ++ [p.name] <+: l
  · obtain ⟨r, hr, p, hscreen, k, rfl⟩ := hbelow
    obtain ⟨i, hi⟩ := List.mem_iff_getElem?.1 hr
    obtain ⟨_, _, hs⟩ := hsettled i r hi
    obtain ⟨_, _, hs'⟩ := hsettled' i r hi
    rw [hs.below p hscreen, hs'.below p hscreen]
  · have hl : ∀ r ∈ requests, ∀ p, c.screen r = .ok p →
        ¬ c.working.location host.cwd ++ [p.name] <+: l :=
      fun r hr p hscreen hin => hbelow ⟨r, hr, p, hscreen, hin⟩
    rcases h l hl with heq | ⟨-, hthere, hmakeable, r, hr, p, hscreen, htext⟩
    · rcases h' l hl with heq' | ⟨-, hthere', hmakeable, r, hr, p, hscreen, htext⟩
      · rw [heq, heq']
      · obtain ⟨i, hi⟩ := List.mem_iff_getElem?.1 hr
        obtain ⟨_, _, hs⟩ := hsettled i r hi
        rw [hs.above p hscreen htext l hmakeable, hthere']
    · obtain ⟨i, hi⟩ := List.mem_iff_getElem?.1 hr
      obtain ⟨_, _, hs'⟩ := hsettled' i r hi
      rw [hthere, hs'.above p hscreen htext l hmakeable]

/-- The names of the volumes that the requests work on are different. -/
def Apart (c : Controller) (requests : List VolumeRequest) : Prop :=
  (requests.filterMap fun r => (c.screen r).toOption.map Placement.name).Nodup

theorem Apart.names_ne (h : c.Apart requests) {i j : Nat} (hij : i ≠ j)
    (hi : requests[i]? = some r) (hj : requests[j]? = some r') {p p' : Placement}
    (hscreen : c.screen r = .ok p) (hscreen' : c.screen r' = .ok p') : p.name ≠ p'.name := by
  obtain ⟨hilt, rfl⟩ := List.getElem?_eq_some_iff.1 hi
  obtain ⟨hjlt, rfl⟩ := List.getElem?_eq_some_iff.1 hj
  have hpairs := List.pairwise_iff_getElem.1 (List.pairwise_filterMap.1 h)
  have hname : (c.screen requests[i]).toOption.map Placement.name = some p.name := by
    rw [hscreen]
    rfl
  have hname' : (c.screen requests[j]).toOption.map Placement.name = some p'.name := by
    rw [hscreen']
    rfl
  rcases Nat.lt_or_gt_of_ne hij with hlt | hgt
  · exact hpairs i j hilt hjlt hlt _ hname _ hname'
  · exact (hpairs j i hjlt hilt hgt _ hname' _ hname).symm

section

variable {host : Host σ} {attached detached : Path → Except Error Unit}
  (hm : m.Suits ⟨host.cwd, attached, detached⟩) (hnormal : c.working.Normal)
  (hdown : ".." ∉ c.working.names) (hapart : c.Apart requests)
  (hlinks : ∀ r ∈ requests, ∀ p, c.screen r = .ok p →
    host.tree.Unlinked host.cwd (c.working.child p.name))
include hm hnormal hdown hapart hlinks

/-- Under every schedule every request settles. -/
theorem run_settled (schedule : List Nat) :
    let result := Crew.run m ⟨requests.map c.serve, host, []⟩ schedule
    c.Undisturbed requests host.cwd host.tree result.host.tree ∧
      ∀ i r, requests[i]? = some r → ∃ a, result.answers[i]? = some a ∧
        c.Settled m host r a ((result.seenOf i).filterMap Happening.call?) result.host.tree := by
  intro result
  let pacts (i : Nat) : Pact := (requests[i]?).elim .idle (c.pact host.tree host.cwd)
  let goals (i : Nat) (a : VolumeAnswer) (made : List Call) (t : Tree) : Prop :=
    ∀ r, requests[i]? = some r → c.Settled m host r a made t
  have hpact {i : Nat} (hi : i < (requests.map c.serve).length) :
      ∃ r ∈ requests, requests[i]? = some r ∧ pacts i = c.pact host.tree host.cwd r := by
    rw [List.length_map] at hi
    refine ⟨requests[i], List.getElem_mem hi, List.getElem?_eq_getElem hi, ?_⟩
    simp only [pacts, List.getElem?_eq_getElem hi, Option.elim_some]
  have hpacts : ∀ i j, i < (requests.map c.serve).length → j < (requests.map c.serve).length →
      i ≠ j → ∀ t t', (pacts i).guarantee t t' → (pacts j).rely t t' := by
    intro i j hi hj hij t t' h
    obtain ⟨r, -, hr, heq⟩ := hpact hi
    obtain ⟨r', -, hr', heq'⟩ := hpact hj
    rw [heq] at h
    rw [heq']
    exact rely_of_guarantee hdown (fun p p' => hapart.names_ne hij hr hr') h
  have halways : ∀ i t t', i < (requests.map c.serve).length → (pacts i).guarantee t t' →
      c.Undisturbed requests host.cwd host.tree t →
      c.Undisturbed requests host.cwd host.tree t' := by
    intro i t t' hi h hundisturbed
    obtain ⟨r, hr, -, heq⟩ := hpact hi
    rw [heq] at h
    exact hundisturbed.change hr h
  have hbound : Crew.Bound ⟨host.cwd, attached, detached⟩ pacts goals
      (c.Undisturbed requests host.cwd host.tree) ⟨requests.map c.serve, host, []⟩ := by
    refine ⟨rfl, fun _ _ => .inl rfl, fun i p hi => ?_⟩
    change (requests.map c.serve)[i]? = some p at hi
    rw [List.getElem?_map, Option.map_eq_some_iff] at hi
    obtain ⟨r, hr, rfl⟩ := hi
    have hserve : (c.serve r).Assures ⟨host.cwd, attached, detached⟩ (c.pact host.tree host.cwd r)
        (c.Settled m host r) [] host.tree :=
      assures_serve hm hnormal hdown (hlinks r (List.mem_of_getElem? hr))
    simp only [pacts, hr, Option.elim_some]
    refine hserve.mono fun a made t hsettled r' hr' => ?_
    obtain rfl := Option.some.inj (hr.symm.trans hr')
    exact hsettled
  obtain ⟨hundisturbed, hgoals⟩ := Crew.run_assures hm hpacts halways hbound schedule
  refine ⟨hundisturbed, fun i r hr => ?_⟩
  have hlt : i < result.answers.length := by
    rw [Crew.length_answers, List.length_map]
    exact (List.getElem?_eq_some_iff.1 hr).1
  have ha := List.getElem?_eq_getElem hlt
  exact ⟨_, ha, hgoals i _ ha r hr⟩

/-- So it gets the answer that it gets when it runs alone. -/
theorem answers_run (schedule : List Nat) :
    (Crew.run m ⟨requests.map c.serve, host, []⟩ schedule).answers =
      requests.map fun r => ((c.serve r).run m host).answer := by
  have hlength := Crew.length_answers m ⟨requests.map c.serve, host, []⟩ schedule
  rw [List.length_map] at hlength
  have hsettled := (run_settled hm hnormal hdown hapart hlinks schedule).2
  refine List.ext_getElem? fun i => ?_
  rw [List.getElem?_map]
  cases hr : requests[i]? with
  | none =>
    rw [List.getElem?_eq_none (hlength ▸ List.getElem?_eq_none_iff.1 hr)]
    rfl
  | some r =>
    obtain ⟨a, ha, hs⟩ := hsettled i r hr
    rw [ha, hs.answer]
    rfl

end

/-- Concurrent requests for volumes of different names do not interfere. Suppose that the mounter
leaves files alone and replies by the target only, that the path of the working directory holds no
`..`, and that no symbolic link stands on the way to the mount point of a request. Then under every
schedule of their single actions every request gets the same answer and makes the same calls, in the
same order, as when the requests run to their ends one after another, in whatever order, and the
tree is the same in the end. -/
theorem concurrent_requests_agree {host : Host σ} {attached detached : Path → Except Error Unit}
    (hm : m.Suits ⟨host.cwd, attached, detached⟩) (hnormal : c.working.Normal)
    (hdown : ".." ∉ c.working.names) (hapart : c.Apart requests)
    (hlinks : ∀ r ∈ requests, ∀ p, c.screen r = .ok p →
      host.tree.Unlinked host.cwd (c.working.child p.name)) (schedule order : List Nat) :
    let crew : Crew σ VolumeAnswer := ⟨requests.map c.serve, host, []⟩
    let together := crew.run m schedule
    let oneByOne := (order.foldl (Crew.complete m) crew).run m []
    together.answers = oneByOne.answers ∧
      (∀ i < requests.length, (together.seenOf i).filterMap Happening.call? =
        (oneByOne.seenOf i).filterMap Happening.call?) ∧
      together.host.tree = oneByOne.host.tree := by
  intro crew together oneByOne
  obtain ⟨serial, hserial⟩ : ∃ serial, oneByOne = crew.run m serial :=
    Crew.run_complete m crew order
  have hanswers := answers_run hm hnormal hdown hapart hlinks
  obtain ⟨hundisturbed, hsettled⟩ := run_settled hm hnormal hdown hapart hlinks schedule
  obtain ⟨hundisturbed', hsettled'⟩ := run_settled hm hnormal hdown hapart hlinks serial
  rw [hserial]
  refine ⟨(hanswers schedule).trans (hanswers serial).symm, fun i hi => ?_,
    hundisturbed.unique (m := m) hundisturbed' (fun i r hr => ?_) fun i r hr => ?_⟩
  · obtain ⟨_, -, hs⟩ := hsettled i _ (List.getElem?_eq_getElem hi)
    obtain ⟨_, -, hs'⟩ := hsettled' i _ (List.getElem?_eq_getElem hi)
    exact hs.calls.trans hs'.calls.symm
  · obtain ⟨a, -, hs⟩ := hsettled i r hr
    exact ⟨a, _, hs⟩
  · obtain ⟨a, -, hs⟩ := hsettled' i r hr
    exact ⟨a, _, hs⟩

namespace Sample

/-- Three requests that find no working directory, and one that is refused. -/
def rivals : List VolumeRequest :=
  [.create request, .create { request with name := "" }, .create { request with name := "vol2" },
    .delete ⟨"s1/base/vol3"⟩]

/-- They race to make the working directory, turn by turn. -/
theorem rivals_agree :
    let crew : Crew Unit VolumeAnswer := ⟨rivals.map controller.serve, ⟨[], .bare, ()⟩, []⟩
    let together := crew.run .inert (Crew.roundRobin 4 8)
    let oneByOne := ([3, 2, 0].foldl (Crew.complete .inert) crew).run .inert []
    controller.Apart rivals ∧ together.answers = oneByOne.answers ∧
      (together.seenOf 2).filterMap Happening.call? =
        (oneByOne.seenOf 2).filterMap Happening.call? ∧
      together.host.tree = oneByOne.host.tree ∧
      together.host.tree.get? ["work", "vol2", "vol2"] = some .directory := by
  have hapart : controller.Apart rivals := by
    unfold Apart
    decide +kernel
  have hagree := @concurrent_requests_agree Unit controller .inert rivals ⟨[], .bare, ()⟩ _ _
    (Mounter.suits_inert []) (normal_start (by simp)) (by decide) hapart
    (fun r _ p _ l _ => (open_bare l).linkless) (Crew.roundRobin 4 8) [3, 2, 0]
  exact ⟨hapart, hagree.1, hagree.2.1 2 (by decide), hagree.2.2, by decide +kernel⟩

end Sample

end Controller
end NfsProvisioner
