import NfsProvisioner.Proofs.Isolation
import NfsProvisioner.Proofs.Repetition

/-!
# Sending a request again where exports are moved

If exports are directories of the same tree, attaching one moves it to the mount point and detaching
moves it back. For a request that is sent again, moving back and forth has to come to nothing: an
export that has been put back and is exposed once more stands where it stood before
(`Exports.Ends.expose_of_returned`). This needs that the paths of the mount point and of the
export's directory lead there whichever of the two the export is at (`Exports.Movable`). They do if
no symbolic link stands on them and the exports are kept apart from the working directory
(`Exports.movable_of_made`).
-/
namespace NfsProvisioner

namespace Exports

/-- The mount point of a volume and the directory of its export are not inside one another, the
latter is no symbolic link, and the ways of neither lead through them. -/
def Movable (exports : Exports) (t : Tree) (cwd : Location) (working : Path) (p : Placement) :
    Prop :=
  ∀ l l', t.Arrives cwd working l → t.Arrives cwd (exports.home.child p.server) l' →
    let point := l ++ [p.name]
    let vault := l' ++ [p.baseDir]
    let rest := (t.prune point (by simp [point])).prune vault (by simp [vault])
    ¬ point <+: vault ∧ ¬ vault <+: point ∧ t.Linkless vault ∧ rest.Arrives cwd working l ∧
      rest.Arrives cwd (exports.home.child p.server) l'

/-- Two places, not inside one another, in directories that are found in a tree that holds neither
of the two. -/
structure Ends (rest : Tree) (cwd : Location) (q q' : Path) (name name' : String)
    (l l' : Location) : Prop where
  arrives : rest.Arrives cwd q l
  arrives' : rest.Arrives cwd q' l'
  takes : q.Takes name
  takes' : q'.Takes name'
  free : rest.get? (l ++ [name]) = none
  free' : rest.get? (l' ++ [name']) = none
  apart : ¬ l ++ [name] <+: l' ++ [name']
  apart' : ¬ l' ++ [name'] <+: l ++ [name]

/-- The second tree is the first one with everything at and below the mount point moved back to the
vault, and an empty directory in its place. -/
structure Returned (t u : Tree) (point vault : Location) : Prop where
  at_vault : ∀ r, u.get? (vault ++ r) = t.get? (point ++ r)
  at_point : u.get? point = some .directory
  below_point : ∀ r, r ≠ [] → u.get? (point ++ r) = none
  elsewhere : ∀ k, ¬ point <+: k → ¬ vault <+: k → u.get? k = t.get? k

variable {rest t u : Tree} {cwd : Location} {q q' : Path} {name name' : String} {l l' : Location}
  {mounts : List Attachment}

/-- How an export is moved to a mount point, step by step. -/
theorem expose_eq (host : Host (List Attachment)) (target directory : Path) :
    expose host target directory =
      match host.tree.made host.cwd directory with
      | (.error _, tree) => (.error .unavailable, tree)
      | (.ok (), tree) =>
        match tree.removeDirectory host.cwd target with
        | .error _ => (.error .targetNotEmpty, tree)
        | .ok cleared =>
          match cleared.rename host.cwd directory target with
          | .error _ => (.error .notMoved, cleared)
          | .ok moved => (.ok (), moved) := by
  unfold expose
  rw [Procedure.run_createDirectories]
  dsimp only
  generalize host.tree.made host.cwd directory = made
  obtain ⟨answer, tree⟩ := made
  cases answer <;> rfl

namespace Ends

variable (h : Ends rest cwd q q' name name' l l')
include h

theorem apart_below (r : Location) : ¬ l ++ [name] <+: l' ++ [name'] ++ r := fun hin =>
  (List.prefix_or_prefix_of_prefix hin (List.prefix_append _ r)).elim h.apart h.apart'

theorem apart_below' (r : Location) : ¬ l' ++ [name'] <+: l ++ [name] ++ r := fun hin =>
  (List.prefix_or_prefix_of_prefix hin (List.prefix_append _ r)).elim h.apart' h.apart

/-- Whatever the two places hold, their directories are found. -/
theorem within_of_elsewhere (hwithin : rest.Within t)
    (helsewhere : ∀ k, ¬ l ++ [name] <+: k → ¬ l' ++ [name'] <+: k → u.get? k = t.get? k) :
    rest.Within u := by
  intro k e hk
  rw [helsewhere k (Tree.not_below_of_free h.free hk) (Tree.not_below_of_free h.free' hk),
    hwithin k e hk]

theorem carries (hwithin : rest.Within t) (hpoint : t.get? (l ++ [name]) = some .directory) :
    t.Carries cwd q name l :=
  ⟨h.arrives.mono (Tree.within_prune_of_free h.free hwithin), hpoint⟩

/-- An export whose directory is there is moved to an empty mount point. -/
theorem expose (mounts : List Attachment) (hwithin : rest.Within t)
    (hname' : Path.isName name' = true) (hpoint : t.get? (l ++ [name]) = some .directory)
    (hbare : ∀ r, r ≠ [] → t.get? (l ++ [name] ++ r) = none)
    (hvault : t.get? (l' ++ [name']) = some .directory) :
    ∃ u, Exports.expose ⟨cwd, t, mounts⟩ (q.child name) (q'.child name') = (.ok (), u) ∧
      t.Moved u (l' ++ [name']) (l ++ [name]) := by
  have hmade : t.made cwd (q'.child name') = (.ok (), t) :=
    Tree.made_of_isDirectory hname'
      (((h.arrives'.mono hwithin).child hname' h.takes' hvault).isDirectory h.takes'.text rfl)
  obtain ⟨cleared, hcleared, hpruned⟩ :=
    (h.arrives.mono hwithin).removeDirectory_of_bare h.takes hpoint hbare
  have hleft : rest.Within cleared :=
    h.within_of_elsewhere hwithin fun k hk _ => (hpruned k).trans (if_neg hk)
  have hthere : cleared.get? (l' ++ [name']) ≠ none := by
    rw [hpruned, if_neg h.apart, hvault]
    exact Option.some_ne_none _
  have hfree : cleared.get? (l ++ [name]) = none :=
    (hpruned _).trans (if_pos (List.prefix_refl _))
  obtain ⟨u, hmoved, hmove⟩ := (h.arrives'.mono hleft).rename_of_free (h.arrives.mono hleft)
    h.takes' h.takes hthere hfree h.apart'
  refine ⟨u, ?_, fun r => ?_, hmove.at_source, fun k hk hk' => ?_⟩
  · rw [expose_eq]
    simp only [hmade, hcleared, hmoved]
  · rw [hmove.at_target, hpruned, if_neg (h.apart_below r)]
  · rw [hmove.elsewhere k hk hk', hpruned, if_neg hk']

/-- An export is moved back from its mount point to where its directory was. -/
theorem putBack (mounts : List Attachment) (hwithin : rest.Within t)
    (hpoint : t.get? (l ++ [name]) = some .directory)
    (hvault : t.get? (l' ++ [name']) = none) :
    Returned t (Exports.putBack ⟨cwd, t, mounts⟩ ⟨q.child name, q'.child name'⟩) (l ++ [name])
      (l' ++ [name']) := by
  have hthere : t.get? (l ++ [name]) ≠ none := by
    rw [hpoint]
    exact Option.some_ne_none _
  obtain ⟨moved, hmoved, hmove⟩ := (h.arrives.mono hwithin).rename_of_free
    (h.arrives'.mono hwithin) h.takes h.takes' hthere hvault h.apart
  have hleft : rest.Within moved := h.within_of_elsewhere hwithin hmove.elsewhere
  have hgone (r : Location) : moved.get? (l ++ [name] ++ r) = none :=
    hmove.at_source _ (List.prefix_append _ r) (h.apart_below' r)
  have hfree : moved.get? (l ++ [name]) = none :=
    hmove.at_source _ (List.prefix_refl _) h.apart'
  obtain ⟨u, hmade, hput⟩ := (h.arrives.mono hleft).create_of_free h.takes .directory hfree
  have hback : Exports.putBack ⟨cwd, t, mounts⟩ ⟨q.child name, q'.child name'⟩ = u := by
    change moved.makeDirectory cwd (q.child name) = .ok u at hmade
    simp only [Exports.putBack, hmoved, hmade]
  rw [hback]
  refine ⟨fun r => ?_, (hput _).trans (if_pos rfl), fun r hr => ?_, fun k hk hk' => ?_⟩
  · rw [hput.outside (h.apart_below r), hmove.at_target]
  · rw [hput, if_neg, hgone]
    exact fun heq => hr (List.append_right_eq_self.1 heq)
  · rw [hput.outside hk, hmove.elsewhere k hk hk']

/-- An export that has been put back and is exposed again stands where it stood before. -/
theorem expose_of_returned {z : Tree} (mounts : List Attachment) (hwithin : rest.Within t)
    (hname' : Path.isName name' = true) (hpoint : t.get? (l ++ [name]) = some .directory)
    (hvault : t.get? (l' ++ [name']) = none)
    (hreturned : Returned t z (l ++ [name]) (l' ++ [name'])) :
    Exports.expose ⟨cwd, z, mounts⟩ (q.child name) (q'.child name') = (.ok (), t) := by
  have hback : z.get? (l' ++ [name']) = some .directory := by
    have hself := hreturned.at_vault []
    rwa [List.append_nil, List.append_nil, hpoint] at hself
  obtain ⟨u, hexposed, hmove⟩ := h.expose mounts
    (h.within_of_elsewhere hwithin hreturned.elsewhere) hname' hreturned.at_point
    hreturned.below_point hback
  rw [hexposed]
  obtain rfl : u = t := by
    apply Tree.ext_get?
    intro k
    by_cases hk : l ++ [name] <+: k
    · obtain ⟨r, rfl⟩ := hk
      rw [hmove.at_target, hreturned.at_vault]
    by_cases hk' : l' ++ [name'] <+: k
    · obtain ⟨r, rfl⟩ := hk'
      rw [hmove.at_source _ (List.prefix_append _ r) hk, Tree.get?_append_of_none hvault]
    · rw [hmove.elsewhere k hk' hk, hreturned.elsewhere k hk hk']
  rfl

end Ends

/-- Exposing an export fails in a way in which it fails again, or comes to a move. -/
theorem expose_cases {exports : Exports} {working : Path} {p : Placement} (hp : p.Plain)
    (hhome : exports.home.Normal) (hcarries : t.Carries cwd working p.name l)
    (htakes : working.Takes p.name)
    (hmovable : ∀ u, t.made cwd (exports.vault p) = (.ok (), u) →
      exports.Movable u cwd working p) :
    (∃ fault fault' u, expose ⟨cwd, t, []⟩ (working.child p.name) (exports.vault p) =
        (.error fault, u) ∧
      u.Carries cwd working p.name l ∧
      expose ⟨cwd, u, []⟩ (working.child p.name) (exports.vault p) = (.error fault', u)) ∨
    ∃ rest u l', Ends rest cwd working (exports.home.child p.server) p.name p.baseDir l l' ∧
      expose ⟨cwd, t, []⟩ (working.child p.name) (exports.vault p) = (.ok (), u) ∧
      rest.Within u ∧ u.get? (l ++ [p.name]) = some .directory ∧
      u.get? (l' ++ [p.baseDir]) = none := by
  have hvault : (exports.vault p).Normal :=
    (hhome.child hp.server.isName).child hp.baseDir.isName
  have hcarries' {u : Tree} {answer : Except Fault Unit}
      (hmade : t.made cwd (exports.vault p) = (answer, u)) :
      u.Carries cwd working p.name l := by
    have hwithin := @Tree.within_made t cwd (exports.vault p) rfl
    rw [hmade] at hwithin
    exact hcarries.mono hwithin
  rcases hmade : t.made cwd (exports.vault p) with ⟨fault | ⟨⟩, u⟩
  · obtain ⟨reason, hagain⟩ := Tree.made_of_not_made hvault rfl hmade
    refine .inl ⟨.unavailable, .unavailable, u, ?_, hcarries' hmade, ?_⟩
    · rw [expose_eq]
      simp only [hmade]
    · rw [expose_eq]
      simp only [hagain]
  have hagain : u.made cwd (exports.vault p) = (.ok (), u) :=
    Tree.made_of_made rfl hp.baseDir.isName hmade
  have hsame : expose ⟨cwd, t, []⟩ (working.child p.name) (exports.vault p) =
      expose ⟨cwd, u, []⟩ (working.child p.name) (exports.vault p) := by
    rw [expose_eq, expose_eq]
    simp only [hmade, hagain]
  rw [hsame]
  have hpoint := hcarries' hmade
  by_cases hbare : ∀ r, r ≠ [] → u.get? (l ++ [p.name] ++ r) = none
  · obtain ⟨-, l', harrives', hentry⟩ :=
      Tree.arrives_of_isDirectory_child (Tree.isDirectory_of_made rfl hp.baseDir.isName hmade)
    obtain ⟨htakes', -, hdirectory⟩ := hentry hp.baseDir.isName hp.baseDir.ne_up
    obtain ⟨hapart, hapart', hlinkless, hrest, hrest'⟩ :=
      hmovable u hmade l l' hpoint.found harrives'
    let rest := (u.prune (l ++ [p.name]) (by simp)).prune (l' ++ [p.baseDir]) (by simp)
    have hends : Ends rest cwd working (exports.home.child p.server) p.name p.baseDir l l' := by
      refine ⟨hrest, hrest', htakes, htakes', ?_, ?_, hapart, hapart'⟩
      · rw [Tree.get?_prune, if_neg hapart', Tree.get?_prune, if_pos (List.prefix_refl _)]
      · rw [Tree.get?_prune, if_pos (List.prefix_refl _)]
    have hwithin : rest.Within u := Tree.prune_within.trans Tree.prune_within
    obtain ⟨moved, hexposed, hmove⟩ := hends.expose [] hwithin hp.baseDir.isName
      hpoint.directory hbare (hdirectory hlinkless)
    refine .inr ⟨rest, moved, l', hends, hexposed,
      hends.within_of_elsewhere hwithin fun k hk hk' => hmove.elsewhere k hk' hk, ?_,
      hmove.at_source _ (List.prefix_refl _) hapart⟩
    have hself := hmove.at_target []
    rwa [List.append_nil, List.append_nil, hdirectory hlinkless] at hself
  · obtain ⟨r, hr⟩ := Classical.not_forall.1 hbare
    obtain ⟨hr, hfull⟩ := Classical.not_imp.1 hr
    have hfailed := hpoint.found.removeDirectory_of_full htakes hpoint.directory hr hfull
    have hexposed : expose ⟨cwd, u, []⟩ (working.child p.name) (exports.vault p) =
        (.error .targetNotEmpty, u) := by
      rw [expose_eq]
      simp only [hagain, hfailed]
    exact .inl ⟨_, _, u, hexposed, hpoint, hexposed⟩

section

variable {exports : Exports} {working : Path} {p : Placement}
  (hapart : exports.Apart working cwd) (hdown : ".." ∉ working.names) (hp : p.Plain)
include hapart hdown hp

/-- If no symbolic link stands on the ways of the mount point and of the export's directory, it is
enough that the exports are kept apart from the working directory. -/
theorem movable_of_unlinked (hlinks : t.Unlinked cwd (working.child p.name))
    (hlinks' : t.Unlinked cwd (exports.vault p)) : exports.Movable t cwd working p := by
  intro l l' h h'
  dsimp only
  have hserver : (exports.home.child p.server).Normal :=
    hapart.home_normal.child hp.server.isName
  obtain ⟨rfl, -⟩ := h.of_way hapart.working_normal hlinks.of_child fun _ _ => rfl
  obtain ⟨rfl, -⟩ := h'.of_way hserver hlinks'.of_child fun _ _ => rfl
  have hdown' : ".." ∉ (exports.home.child p.server).names :=
    Path.not_up_mem_child hapart.home_down hp.server.ne_up
  have hself := (@Path.mem_way_child cwd (exports.home.child p.server) _ hp.baseDir.ne_up _).2
    (.inr rfl)
  refine ⟨?_, ?_, hlinks' _ hself, ?_, ?_⟩
  · rw [location_server hp]
    exact hapart.point_not_above _ _
  · rw [location_server hp]
    exact hapart.home_not_above _ _
  · refine (h.of_way hapart.working_normal hlinks.of_child fun k hk => ?_).2
    rw [Tree.get?_prune, if_neg, Tree.get?_prune,
      if_neg (Path.not_below_of_mem_way hdown hk (by simp))]
    rw [location_server hp]
    exact fun hin => hapart.way_outside k hk ((List.prefix_append _ _).trans hin)
  · refine (h'.of_way hserver hlinks'.of_child fun k hk => ?_).2
    rw [Tree.get?_prune, if_neg (Path.not_below_of_mem_way hdown' hk (by simp)), Tree.get?_prune,
      if_neg]
    have hup := Path.prefix_of_mem_way hdown' hk
    rw [Path.location_child hp.server.ne_up] at hup
    exact fun hin => hapart.point_not_above _ _ (hin.trans hup)

/-- This may be checked before the two have been made. -/
theorem movable_of_made (hlinks : t.Unlinked cwd (working.child p.name))
    (hlinks' : t.Unlinked cwd (exports.vault p)) {made both : Tree}
    {answer answer' : Except Fault Unit}
    (hmade : t.made cwd (working.child p.name) = (answer, made))
    (hboth : made.made cwd (exports.vault p) = (answer', both)) :
    exports.Movable both cwd working p := by
  have hpoint : (working.child p.name).Normal := hapart.working_normal.child hp.name.isName
  have hvault : (exports.vault p).Normal :=
    (hapart.home_normal.child hp.server.isName).child hp.baseDir.isName
  have hpointMade := Tree.unlinked_made hpoint hlinks rfl hmade hlinks
  have hvaultMade := Tree.unlinked_made hpoint hlinks rfl hmade hlinks'
  exact movable_of_unlinked hapart hdown hp
    (Tree.unlinked_made hvault hvaultMade rfl hboth hpointMade)
    (Tree.unlinked_made hvault hvaultMade rfl hboth hvaultMade)

end

end Exports

namespace Controller

open Exports

variable {c : Controller} {exports : Exports} {p : Placement} {r : VolumeRequest} {cwd : Location}
  {t u : Tree}

/-- A visit of an export that cannot be exposed. -/
theorem visited_of_not_exposed (hp : p.Plain) {fault : ExportFault}
    (h : expose ⟨cwd, t, []⟩ (c.mountPoint p) (exports.vault p) = (.error fault, u))
    (detachError : Option Error) :
    c.visited (exports.mounter.failing none detachError) p r ⟨cwd, t, []⟩ =
      ⟨cwd, u.cleared cwd (c.mountPoint p), []⟩ := by
  have hattach : exports.mounter.attach (c.mountPoint p) p.server p.baseSharePath ⟨cwd, t, []⟩ =
      ⟨.error (.mountFailed (c.mountPoint p).text fault.message), u, [], []⟩ := by
    simp [mounter, attach, directory_eq_vault hp, h]
  rw [visited_of_refused (by rw [hattach]), hattach]
  rfl

/-- The mounter attaches an export that can be exposed. -/
theorem attach_of_exposed (hp : p.Plain)
    (h : expose ⟨cwd, t, []⟩ (c.mountPoint p) (exports.vault p) = (.ok (), u)) :
    exports.mounter.attach (c.mountPoint p) p.server p.baseSharePath ⟨cwd, t, []⟩ =
      ⟨.ok (), u, [exports.attachment c.working p], []⟩ := by
  simp [mounter, attach, directory_eq_vault hp, h]
  rfl

/-- The mounter leaves an export attached where it is. -/
theorem attach_of_attached (server share : String) :
    exports.mounter.attach (c.mountPoint p) server share
        ⟨cwd, t, [exports.attachment c.working p]⟩ =
      ⟨.ok (), t, [exports.attachment c.working p], []⟩ := by
  simp [mounter, attach, attachment, mountPoint]

theorem detach_of_attached :
    exports.mounter.detach (c.mountPoint p) ⟨cwd, t, [exports.attachment c.working p]⟩ =
      ⟨.ok (), putBack ⟨cwd, t, [exports.attachment c.working p]⟩
        (exports.attachment c.working p), [], []⟩ := by
  simp [mounter, detach, attachment, mountPoint]

/-- A visit of an export that is exposed, or was so before. -/
theorem visited_of_attached {host : Host (List Attachment)}
    (h : exports.mounter.attach (c.mountPoint p) p.server p.baseSharePath host =
      ⟨.ok (), u, [exports.attachment c.working p], []⟩) :
    let busy : Host (List Attachment) := ⟨host.cwd, r.effect u host.cwd (c.volumePath p),
      [exports.attachment c.working p]⟩
    c.visited exports.mounter p r host =
        Host.cleared ⟨host.cwd, putBack busy (exports.attachment c.working p), []⟩
          (c.mountPoint p) ∧
      ∀ e, c.visited (exports.mounter.failing none (some e)) p r host = busy := by
  dsimp only
  refine ⟨?_, fun e => ?_⟩
  · have hworked : c.worked p r (host.after ⟨.ok (), u, [exports.attachment c.working p], []⟩) =
        ⟨host.cwd, r.effect u host.cwd (c.volumePath p), [exports.attachment c.working p]⟩ :=
      rfl
    simp only [visited, h, hworked, detach_of_attached]
    rfl
  · rw [visited_of_detach_failing (by rw [h]), h]
    rfl

/-- Work on an exposed export is not done again, and once the export has been put back, exposing it
again gives back the files that the work has left. -/
theorem work_of_exposed {rest : Tree} {l l' : Location} (hp : p.Plain) (r : VolumeRequest)
    (h : Ends rest cwd c.working (exports.home.child p.server) p.name p.baseDir l l')
    (hwithin : rest.Within u) (hpoint : u.get? (l ++ [p.name]) = some .directory)
    (hvault : u.get? (l' ++ [p.baseDir]) = none) :
    ∃ done back, r.effect u cwd (c.volumePath p) = done ∧
      r.effect done cwd (c.volumePath p) = done ∧ done.Carries cwd c.working p.name l ∧
      putBack ⟨cwd, done, [exports.attachment c.working p]⟩ (exports.attachment c.working p) =
        back ∧
      back.Carries cwd c.working p.name l ∧
      expose ⟨cwd, back, []⟩ (c.mountPoint p) (exports.vault p) = (.ok (), done) := by
  have hexposure := h.carries hwithin hpoint
  have hdone := r.carries_effect hexposure hp.name h.takes
  have houtside {k : Location} (hk : ¬ l ++ [p.name] <+: k) :
      (r.effect u cwd (c.volumePath p)).get? k = u.get? k :=
    r.effect_outside hexposure hp.name h.takes
      fun hin => hk ((List.prefix_append _ _).trans hin)
  have hwithin' := h.within_of_elsewhere hwithin fun k hk _ => houtside hk
  have hvault' := (houtside h.apart).trans hvault
  have hreturned := h.putBack [exports.attachment c.working p] hwithin' hdone.directory hvault'
  exact ⟨_, _, rfl, r.effect_effect hexposure hp.name h.takes, hdone, rfl,
    h.carries (h.within_of_elsewhere hwithin' hreturned.elsewhere) hreturned.at_point,
    h.expose_of_returned [] hwithin' hp.baseDir.isName hdone.directory hvault' hreturned⟩

/-- If attaching and detaching move the exports, a request can be sent again. -/
theorem retries_of_exports (hhome : exports.home.Normal) (hscreen : c.screen r = .ok p)
    (hnormal : c.working.Normal) (hdown : ".." ∉ c.working.names)
    (hsteady : t.Steady cwd c.working p.name)
    (hmovable : ∀ made both, t.made cwd (c.mountPoint p) = (.ok (), made) →
      made.made cwd (exports.vault p) = (.ok (), both) →
        exports.Movable both cwd c.working p) :
    c.Retries exports.mounter Eq r ⟨cwd, t, []⟩ := by
  have hp := plain_of_screen hscreen
  refine retries_of_visits hscreen hnormal hdown hsteady (fun _ => rfl)
    fun made l detachError hmade htakes hcarries => ?_
  dsimp only
  rcases expose_cases hp hhome hcarries htakes fun both => hmovable made both hmade with
    ⟨fault, fault', u, hfailed, hleft, hagain⟩ |
    ⟨rest, u, l', hends, hexposed, hwithin, hpoint, hvault⟩
  · -- The export is not exposed, the first time or later.
    have honce := visited_of_not_exposed (c := c) (r := r) hp hfailed
    have hlater := visited_of_not_exposed (c := c) (r := r) hp hagain
    have hserve (detachError : Option Error) :
        ((c.serve r).run (exports.mounter.failing none detachError)
          ⟨cwd, u.cleared cwd (c.mountPoint p), []⟩).host =
            ⟨cwd, u.cleared cwd (c.mountPoint p), []⟩ :=
      (host_serve_of_made hscreen (hleft.made_cleared hp.name.isName htakes)).trans
        (hlater detachError)
    have honce' := honce none
    have hserve' := hserve none
    rw [Mounter.failing_none] at honce' hserve'
    rw [honce, honce', hserve, hserve']
    exact ⟨rfl, rfl, rfl⟩
  obtain ⟨done, back, heffect, hidem, hdone, hputBack, hback, hexposed'⟩ :=
    work_of_exposed hp r hends hwithin hpoint hvault
  -- Whether the export is exposed, is so already or has been put back before, a visit comes to the
  -- same.
  have hvisited {host : Host (List Attachment)} {v : Tree} (hcwd : host.cwd = cwd)
      (hwork : r.effect v cwd (c.volumePath p) = done)
      (hattach : exports.mounter.attach (c.mountPoint p) p.server p.baseSharePath host =
        ⟨.ok (), v, [exports.attachment c.working p], []⟩) :
      c.visited exports.mounter p r host = ⟨cwd, back.cleared cwd (c.mountPoint p), []⟩ ∧
        ∀ e, c.visited (exports.mounter.failing none (some e)) p r host =
          ⟨cwd, done, [exports.attachment c.working p]⟩ := by
    subst hcwd
    obtain ⟨honce, hstuck⟩ := visited_of_attached (r := r) hattach
    rw [hwork, hputBack] at honce
    rw [hwork] at hstuck
    exact ⟨honce, hstuck⟩
  obtain ⟨honce, hstuck⟩ := @hvisited ⟨cwd, made, []⟩ u rfl heffect (attach_of_exposed hp hexposed)
  cases detachError with
  | none =>
    obtain ⟨hretried, -⟩ := @hvisited ⟨cwd, back, []⟩ done rfl hidem
      (attach_of_exposed hp hexposed')
    have hmade : (back.cleared cwd (c.mountPoint p)).made cwd (c.mountPoint p) = (.ok (), back) :=
      hback.made_cleared hp.name.isName htakes
    rw [Mounter.failing_none, honce, host_serve_of_made hscreen hmade, hretried]
    exact ⟨rfl, rfl, rfl⟩
  | some e =>
    obtain ⟨hretried, hstuck'⟩ := @hvisited ⟨cwd, done, [exports.attachment c.working p]⟩ done rfl
      hidem (attach_of_attached _ _)
    have hmade : done.made cwd (c.mountPoint p) = (.ok (), done) :=
      hdone.made_self hp.name.isName htakes
    rw [hstuck, host_serve_of_made hscreen hmade, host_serve_of_made hscreen hmade, hretried,
      hstuck', honce]
    exact ⟨rfl, rfl, rfl⟩

/-- Sending a request again after calls to the mounter have failed comes to the same as if it had
been sent once and no call had failed. -/
theorem failed_request_can_be_sent_again (c : Controller) (r : VolumeRequest)
    (hnormal : c.working.Normal) (hdown : ".." ∉ c.working.names) :
    (∀ {σ : Type} (m : Mounter σ) (attached : σ → Path → Prop) (host : Host σ),
      m.KeepsFiles → m.NeverFails → m.Tracks attached →
      (∀ p, c.screen r = .ok p → host.tree.Steady host.cwd c.working p.name) →
      c.Retries m (fun mounts mounts' => ∀ path, attached mounts path ↔ attached mounts' path) r
        host) ∧
    ∀ (exports : Exports) (host : Host (List Attachment)),
      exports.home.Normal → host.mounts = [] →
      (∀ p, c.screen r = .ok p → host.tree.Steady host.cwd c.working p.name ∧
        ∀ made both, host.tree.made host.cwd (c.mountPoint p) = (.ok (), made) →
          made.made host.cwd (exports.vault p) = (.ok (), both) →
            exports.Movable both host.cwd c.working p) →
      c.Retries exports.mounter Eq r host := by
  constructor
  · intro σ m attached host hm hworks htracks hsteady
    cases hscreen : c.screen r with
    | error answer => exact retries_of_refused hscreen fun _ _ => Iff.rfl
    | ok p =>
      exact retries_of_keepsFiles hm hworks htracks hscreen hnormal hdown (hsteady p hscreen)
  · rintro exports ⟨cwd, t, mounts⟩ hhome rfl hways
    cases hscreen : c.screen r with
    | error answer => exact retries_of_refused hscreen fun _ => rfl
    | ok p =>
      obtain ⟨hsteady, hmovable⟩ := hways p hscreen
      exact retries_of_exports hhome hscreen hnormal hdown hsteady hmovable

end Controller

/-! ## A request sent again, and one that is lost -/

namespace Controller.Sample

/-- A tree with a symbolic link. -/
def withLink (t : Tree) (l : Location) (target : String) : Tree :=
  (t.makeLink [] ⟨.root, l, false⟩ target).toOption.getD .bare

/-- The working directory is somewhere else, and a link leads to it. -/
def relocated : Host Unit :=
  ⟨[], withLink (withDirectory .bare ["disk", "jobs"]) ["work"] "/disk/jobs", ()⟩

/-- A working directory and an export with a volume. -/
def stocked : Host (List Attachment) :=
  ⟨[], withDirectory (withDirectory .bare ["work"]) ["export", "s1", "base", "vol0"], []⟩

theorem tracks_inert : (Mounter.inert : Mounter Unit).Tracks fun _ _ => False :=
  ⟨fun _ _ _ _ _ _ => Iff.rfl, fun _ _ _ => ⟨False.elim, And.right⟩⟩

theorem steady_relocated : relocated.tree.Steady [] controller.working "vol1" := by
  intro l harrives
  have hself : relocated.tree.Arrives [] controller.working ["disk", "jobs"] :=
    ⟨by rfl, by decide +kernel⟩
  obtain rfl := harrives.unique hself
  have hnone : relocated.tree.get? (["disk", "jobs"] ++ ["vol1"]) = none := by decide +kernel
  refine ⟨fun target heq => ?_, hself.mono (Tree.within_prune_of_free hnone .refl)⟩
  rw [hnone] at heq
  cases heq

/-- A volume is made although the first attempt could not attach its export, or not detach it. -/
theorem creation_can_be_sent_again :
    let c := controller
    let r := VolumeRequest.create request
    let busy := some (Error.internal "busy")
    (let tried := ((c.serve r).run (Mounter.inert.failing busy none) relocated).host
      let retried := ((c.serve r).run .inert tried).host
      tried.tree = relocated.tree ∧
        retried.tree.get? ["disk", "jobs", "vol1", "vol1"] = some .directory ∧
        retried.tree = ((c.serve r).run .inert relocated).host.tree) ∧
    (let tried := ((c.serve r).run (exports.mounter.failing none busy) stocked).host
      let retried := ((c.serve r).run exports.mounter tried).host
      let once := ((c.serve r).run exports.mounter stocked).host
      tried.mounts = [exports.attachment c.working ⟨"s1", "base", "vol1"⟩] ∧
        retried.tree.get? ["export", "s1", "base", "vol1"] = some .directory ∧
        retried.tree = once.tree ∧ retried.mounts = once.mounts) := by
  have hscreen : controller.screen (.create request) = .ok ⟨"s1", "base", "vol1"⟩ := by rfl
  have hlinks : stocked.tree.Clear [] (controller.working.child "vol1") := by
    unfold Tree.Clear
    decide +kernel
  have hlinks' : stocked.tree.Clear [] (exports.vault ⟨"s1", "base", "vol1"⟩) := by
    unfold Tree.Clear
    decide +kernel
  -- For any request, so that nothing is evaluated before its time.
  have hagain (r : VolumeRequest) (hscreen : controller.screen r = .ok ⟨"s1", "base", "vol1"⟩)
      (busy : Option Error) :
      ((controller.serve r).run .inert
        ((controller.serve r).run (Mounter.inert.failing busy none) relocated).host).host.tree =
          ((controller.serve r).run .inert relocated).host.tree ∧
      ((controller.serve r).run exports.mounter
        ((controller.serve r).run (exports.mounter.failing none busy) stocked).host).host.tree =
          ((controller.serve r).run exports.mounter stocked).host.tree ∧
      ((controller.serve r).run exports.mounter
        ((controller.serve r).run (exports.mounter.failing none busy) stocked).host).host.mounts =
          ((controller.serve r).run exports.mounter stocked).host.mounts := by
    obtain ⟨hplain, hmoved⟩ := failed_request_can_be_sent_again controller r
      (normal_start (by simp)) (by decide)
    have hinert := hplain .inert (fun _ _ => False) relocated Mounter.keepsFiles_inert
      Mounter.neverFails_inert tracks_inert (fun p hp => by
        obtain rfl := Except.ok.inj (hscreen.symm.trans hp)
        exact steady_relocated) busy none
    have hexports := hmoved exports stocked apart.home_normal rfl (fun p hp => by
      obtain rfl := Except.ok.inj (hscreen.symm.trans hp)
      exact ⟨Tree.steady_of_unlinked apart.working_normal (by decide) (by decide) hlinks.unlinked,
        fun made both hmade hboth => Exports.movable_of_made apart (by decide)
          (plain_of_screen hscreen) hlinks.unlinked hlinks'.unlinked hmade hboth⟩) none busy
    exact ⟨hinert.1, hexports.1, hexports.2.1⟩
  obtain ⟨hinert, htree, hmounts⟩ := hagain _ hscreen (some (.internal "busy"))
  exact ⟨⟨by decide +kernel, by decide +kernel, hinert⟩,
    ⟨by decide +kernel, by decide +kernel, htree, hmounts⟩⟩

/-- A link leads to the working directory by way of what becomes a mount point there. -/
def roundabout : Host Unit :=
  ⟨[], withLink (withDirectory .bare ["d", "vol1"]) ["work"] "d/vol1/..", ()⟩

/-- The directory of an export is a symbolic link. -/
def linkedExport : Host (List Attachment) :=
  ⟨[], withLink (withDirectory (withDirectory .bare ["work"]) ["export", "s1", "real"])
    ["export", "s1", "base"] "real", []⟩

/-- If the first attempt cannot attach the export, the mount point is removed and the working
directory is not found any more. If what was attached is a link and cannot be detached, the link
stays in the mount point's place and no later attempt gets past it. -/
theorem retry_goes_astray :
    (".." ∉ controller.working.names ∧
      roundabout.tree.Arrives [] controller.working ["d"] ∧
      roundabout.tree.get? ["d", "vol1"] = some .directory ∧
      ¬ controller.Retries .inert (fun _ _ => True) (.create request) roundabout) ∧
    (".." ∉ controller.working.names ∧ exports.Apart controller.working [] ∧
      linkedExport.mounts = [] ∧ linkedExport.tree.Clear [] (controller.working.child "vol1") ∧
      ¬ controller.Retries exports.mounter (fun _ _ => True) (.create request) linkedExport) := by
  refine ⟨⟨by decide, ⟨by rfl, by decide +kernel⟩, by decide +kernel, fun h => ?_⟩,
    by decide, apart, rfl, ?_, fun h => ?_⟩
  · have hsame := (h (some (.internal "down")) none).1
    have hfound := congrArg (Tree.get? · ["d", "vol1"]) hsame
    exact absurd hfound (by decide +kernel)
  · unfold Tree.Clear
    decide +kernel
  · have hsame := (h none (some (.internal "busy"))).1
    have hfound := congrArg (Tree.get? · ["export", "s1", "base"]) hsame
    exact absurd hfound (by decide +kernel)

end Controller.Sample
end NfsProvisioner
