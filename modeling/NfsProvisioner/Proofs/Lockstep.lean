import NfsProvisioner.Proofs.Locality
import NfsProvisioner.Proofs.SharedWay

/-!
# Work below a mount point, with others and alone

Once the working directory is there, what a confined procedure comes to depends only on what is at
and below its mount point, and nobody else changes that. So it goes through the same motions
whether others act in between or not, and step by step the two trees agree there (`Tree.Twin`).
-/
namespace NfsProvisioner

namespace Tree

/-- Two trees in which the working directory is there and in which the mount point called `name` is
the same with all that is below it. -/
structure Twin (t s : Tree) (working : Path) (cwd : Location) (name : String) : Prop where
  passable : t.Passable cwd working
  other : s.Passable cwd working
  linkless : t.Linkless (working.location cwd ++ [name])
  below : ∀ r, t.get? (working.location cwd ++ [name] ++ r) =
    s.get? (working.location cwd ++ [name] ++ r)

variable {t t' s s' : Tree} {working p : Path} {cwd l : Location} {name : String}

/-- With the working directory in place, nothing outside of the mount point is changed. -/
theorem Kept.outside (h : t.Kept t' working cwd name) (hpass : t.Passable cwd working)
    (hl : ¬ working.location cwd ++ [name] <+: l) : t'.get? l = t.get? l := by
  have hbeside : ¬ working.location cwd ++ [name, name] <+: l := by
    intro hin
    refine hl (List.IsPrefix.trans ?_ hin)
    exact (List.prefix_append_right_inj _).2 (List.prefix_append [name] [name])
  rcases h l hbeside with heq | ⟨hway, hnone, -⟩ | ⟨rfl, -, -⟩
  · exact heq
  · rw [hpass l hway] at hnone
    cases hnone
  · exact absurd (List.prefix_refl _) hl

namespace Twin

variable (h : t.Twin s working cwd name)
include h

theorem point :
    t.get? (working.location cwd ++ [name]) = s.get? (working.location cwd ++ [name]) := by
  have hself := h.below []
  rwa [List.append_nil] at hself

theorem symm : s.Twin t working cwd name :=
  ⟨h.other, h.passable, fun target => h.point ▸ h.linkless target, fun r => (h.below r).symm⟩

variable (hname : PlainName name)
include hname

theorem unlinked : t.Unlinked cwd (working.child name) := by
  intro l hl
  rcases (Path.mem_way_child hname.ne_up).1 hl with hway | rfl
  · exact Open.linkless (.inr (h.passable l hway))
  · exact h.linkless

/-- The trees agree on the way to the directory of the volume. -/
theorem same (hl : l ∈ ((working.child name).child name).way cwd) : t.get? l = s.get? l := by
  rcases (mem_way_volume hname).1 hl with hway | rfl | rfl
  · rw [h.passable l hway, h.other l hway]
  · exact h.point
  · have hvolume := h.below [name]
    rwa [List.append_assoc] at hvolume

theorem of_kept (hdown : ".." ∉ working.names) (ht : t.Kept t' working cwd name)
    (hs : s.Kept s' working cwd name) (hagree : ∀ k, t.get? k = s.get? k → t'.get? k = s'.get? k) :
    t'.Twin s' working cwd name := by
  have hnever {l : Location} (hl : l ∈ working.way cwd) :
      ¬ working.location cwd ++ [name] <+: l :=
    Path.not_below_of_mem_way hdown hl (by simp)
  have hpoint : working.location cwd ++ [name] ∈ (working.child name).way cwd :=
    (Path.mem_way_child hname.ne_up).2 (.inr rfl)
  refine ⟨fun l hl => ?_, fun l hl => ?_, ?_, fun r => hagree _ (h.below r)⟩
  · exact (ht.outside h.passable (hnever hl)).trans (h.passable l hl)
  · exact (hs.outside h.other (hnever hl)).trans (h.other l hl)
  · exact ht.unlinked hdown hname (h.unlinked hname) _ hpoint

variable (hnormal : working.Normal)
include hnormal

theorem makeDirectory_likewise (hdown : ".." ∉ working.names)
    (hp : p.Above ((working.child name).child name)) :
    Likewise t s (t.makeDirectory cwd p) (s.makeDirectory cwd p) := by
  by_cases hnames : p.names = []
  · obtain ⟨anchor, names, trailing⟩ := p
    obtain rfl : names = [] := hnames
    exact create_nameless_likewise .directory (h.same hname (hp.mem_way Path.start_mem_way))
  obtain ⟨q, last, htrailing, rfl⟩ := Path.eq_child_of_trailing hp.trailing hnames
  have hq : q.Above (working.child name) := Path.above_of_child_above hp htrailing
  have hpoint := hnormal.child hname.isName
  have hup : last ≠ ".." := by
    rintro rfl
    have hvolume := Path.not_up_mem_child (Path.not_up_mem_child hdown hname.ne_up) hname.ne_up
    exact hp.not_up_mem hvolume (List.mem_append_right _ (List.mem_singleton_self ".."))
  have hself : q.location cwd ++ [last] ∈ (q.child last).way cwd :=
    (Path.mem_way_child hup).2 (.inr rfl)
  exact create_likewise (hq.normal hpoint) ((h.unlinked hname).above hq)
    (fun l hl => h.same hname (hp.mem_way ((Path.mem_way_child hup).2 (.inl hl)))) hup .directory
    (h.same hname (hp.mem_way hself))

theorem removeDirectory_likewise : Likewise t s (t.removeDirectory cwd (working.child name))
    (s.removeDirectory cwd (working.child name)) :=
  Tree.removeDirectory_likewise hnormal h.passable.unlinked
    (fun l hl => (h.passable l hl).trans (h.other l hl).symm) hname.ne_up h.below

theorem removeAll_likewise : Likewise t s (t.removeAll cwd ((working.child name).child name))
    (s.removeAll cwd ((working.child name).child name)) := by
  refine Tree.removeAll_likewise (hnormal.child hname.isName) hname.ne_up (h.unlinked hname)
    (fun l hl => h.same hname ?_) fun r => ?_
  · exact (Path.mem_way_child hname.ne_up).2 (.inl hl)
  · rw [Path.location_child hname.ne_up, List.append_assoc]
    exact h.below ([name] ++ r)

theorem isDirectory_eq (hp : p.Above (working.child name)) :
    t.isDirectory cwd p = s.isDirectory cwd p := by
  have hpoint := hnormal.child hname.isName
  refine isDirectory_congr (hp.normal hpoint) hp.trailing ((h.unlinked hname).above hp)
    fun l hl => h.same hname ?_
  exact (Path.mem_way_child hname.ne_up).2 (.inl (hp.mem_way hl))

end Twin
end Tree

namespace Procedure

open NfsProvisioner.Tree

variable {σ α : Type}

/-- The procedure has come to the same as in a run on its own, as far as it can tell, after some
calls that were made before. -/
structure Agrees (o : Outcome σ α) (working : Path) (cwd : Location) (name : String)
    (calls : List Call) (answer : α) (made : List Call) (t : Tree) : Prop where
  answer : answer = o.answer
  calls : made = calls ++ o.calls
  twin : t.Twin o.host.tree working cwd name

variable {m : Mounter σ} {b : Backdrop} {t₀ t s : Tree} {working : Path} {name : String}
  {calls : List Call} {host : Host σ}

theorem Agrees.following {o : Outcome σ α} {seen : List Happening} {a : α} {made : List Call}
    (h : Agrees o working b.cwd name (calls ++ seen.filterMap Happening.call?) a made t) :
    Agrees (o.following seen) working b.cwd name calls a made t := by
  refine ⟨h.answer, ?_, h.twin⟩
  rw [calls_following, ← List.append_assoc]
  exact h.calls

variable (hname : PlainName name)
include hname

/-- Others keep away from the mount point and leave the working directory where it is. -/
theorem twin_of_rely {t' : Tree} (h : t.Twin s working b.cwd name)
    (hrely : (t₀.sharing b.cwd (working.child name)).rely t t') :
    t'.Twin s working b.cwd name := by
  have hbelow : ∀ r, t'.get? (working.location b.cwd ++ [name] ++ r) =
      t.get? (working.location b.cwd ++ [name] ++ r) := by
    rw [← Path.location_child hname.ne_up]
    exact hrely.1
  have hself := hbelow []
  rw [List.append_nil] at hself
  refine ⟨fun l hl => ?_, h.other, fun target => ?_, fun r => (hbelow r).trans (h.below r)⟩
  · exact (hrely.2 l ((Path.mem_way_child hname.ne_up).2 (.inl hl))).grownAt.directory
      (h.passable l hl)
  · rw [hself]
    exact h.linkless target

variable (hdown : ".." ∉ working.names)
include hdown

/-- A change that is the same on both trees, in a run with others and in one without. -/
theorem permits_twin {next : Except Fault Unit → Procedure α} {result alone : Except Fault Tree}
    {mounts : σ} (htwin : t.Twin s working b.cwd name) (hlike : Likewise t s result alone)
    (hkept : ∀ t', result = .ok t' → t.Kept t' working b.cwd name)
    (hkept' : ∀ s', alone = .ok s' → s.Kept s' working b.cwd name)
    (hnext : ∀ reply t' s', t'.Twin s' working b.cwd name →
      (next reply).Assures b (t₀.sharing b.cwd (working.child name))
        (Agrees ((next reply).run m ⟨b.cwd, s', mounts⟩) working b.cwd name calls) calls t') :
    let changed := Host.change ⟨b.cwd, s, mounts⟩ alone
    (t₀.sharing b.cwd (working.child name)).Permits t result fun reply =>
      (next reply).Assures b (t₀.sharing b.cwd (working.child name))
        (Agrees ((next changed.1).run m changed.2) working b.cwd name calls) calls := by
  cases hlike with
  | refused fault => exact hnext (.error fault) t s htwin
  | @done t' s' hagree =>
    refine ⟨fun l hl => .inl ((hkept t' rfl).outside htwin.passable ?_), ?_⟩
    · rwa [← Path.location_child hname.ne_up]
    · exact hnext (.ok ()) t' s'
        (htwin.of_kept hname hdown (hkept t' rfl) (hkept' s' rfl) hagree)

/-- A confined procedure goes through the same motions as on its own. -/
theorem assures_twin (hm : m.Suits b) (hnormal : working.Normal) {p : Procedure α} {mounts : σ}
    (hp : p.Confined (working.child name) ((working.child name).child name))
    (htwin : t.Twin s working b.cwd name) :
    p.Assures b (t₀.sharing b.cwd (working.child name))
      (Agrees (p.run m ⟨b.cwd, s, mounts⟩) working b.cwd name calls) calls t := by
  induction p generalizing calls t s mounts with
  | done a =>
    exact fun u hrely => ⟨rfl, (List.append_nil calls).symm, twin_of_rely hname htwin hrely⟩
  | now statement next ih =>
    rw [Assures, run]
    refine (@ih t s calls mounts hp htwin).mono fun a made u h => Agrees.following ?_
    rwa [Statement.calls_seen, List.append_nil]
  | isDirectory path next ih =>
    intro u hrely
    have hu := twin_of_rely hname htwin hrely
    rw [hu.isDirectory_eq hname hnormal hp.1]
    exact ih _ (hp.2 _) hu
  | makeDirectory path next ih =>
    intro u hrely
    have hu := twin_of_rely hname htwin hrely
    exact permits_twin hname hdown hu (hu.makeDirectory_likewise hname hnormal hdown hp.1)
      (fun _ h => kept_of_makeDirectory hname hnormal (hu.unlinked hname) hp.1 h)
      (fun _ h => kept_of_makeDirectory hname hnormal (hu.symm.unlinked hname) hp.1 h)
      fun reply _ _ h => ih reply (hp.2 reply) h
  | removeDirectory path next ih =>
    obtain ⟨rfl, hnext⟩ := hp
    intro u hrely
    have hu := twin_of_rely hname htwin hrely
    exact permits_twin hname hdown hu (hu.removeDirectory_likewise hname hnormal)
      (fun _ h => kept_of_removeDirectory hnormal (hu.unlinked hname) h)
      (fun _ h => kept_of_removeDirectory hnormal (hu.symm.unlinked hname) h)
      fun reply _ _ h => ih reply (hnext reply) h
  | removeAll path next ih =>
    obtain ⟨rfl, hnext⟩ := hp
    intro u hrely
    have hu := twin_of_rely hname htwin hrely
    exact permits_twin hname hdown hu (hu.removeAll_likewise hname hnormal)
      (fun _ h => kept_of_removeAll hname hnormal (hu.unlinked hname) h)
      (fun _ h => kept_of_removeAll hname hnormal (hu.symm.unlinked hname) h)
      fun reply _ _ h => ih reply (hnext reply) h
  | attach target server share next ih =>
    let reply := m.attach target server share ⟨b.cwd, s, mounts⟩
    have hreply : reply.result = b.attached target := hm.attached _ _ _ _
    have htree : reply.tree = s := hm.attach _ _ _ _
    rw [Assures, run, ← hreply]
    refine (@ih reply.result t reply.tree (calls ++ [.attach target server share]) reply.mounts
      (hp.2 _) (htree ▸ htwin)).mono fun a made u h => Agrees.following ?_
    rwa [calls_called]
  | detach target next ih =>
    let reply := m.detach target ⟨b.cwd, s, mounts⟩
    have hreply : reply.result = b.detached target := hm.detached _ _
    have htree : reply.tree = s := hm.detach _ _
    rw [Assures, run, ← hreply]
    refine (@ih reply.result t reply.tree (calls ++ [.detach target]) reply.mounts
      (hp.2 _) (htree ▸ htwin)).mono fun a made u h => Agrees.following ?_
    rwa [calls_called]

end Procedure
end NfsProvisioner
