import NfsProvisioner.Proofs.Directories
import NfsProvisioner.Proofs.PlainNames

/-!
# Requests stay inside their mount points

Whatever a caller sends and whatever the mounter answers, a request works on one entry of the
working directory, named by a plain name. `Procedure.Confined` says so of a procedure, for every
reply that it may get. Each action of such a procedure keeps everything outside the directory of the
volume, the mount point apart, which may come and go, and missing directories above, which may be
made (`Tree.Kept`). This needs ways without symbolic links down to the mount point; links below it
are nothing but entries to be removed.
-/
namespace NfsProvisioner

variable {σ α β : Type}

/-- A mounter that leaves the files of its host as they are. -/
structure Mounter.KeepsFiles (m : Mounter σ) : Prop where
  attach : ∀ target server share host, (m.attach target server share host).tree = host.tree
  detach : ∀ target host, (m.detach target host).tree = host.tree

theorem Mounter.keepsFiles_inert : (inert : Mounter σ).KeepsFiles :=
  ⟨fun _ _ _ _ => rfl, fun _ _ => rfl⟩

namespace Mounter.KeepsFiles

variable {m : Mounter σ} (h : m.KeepsFiles)
include h

theorem after_attach (target : Path) (server share : String) (host : Host σ) :
    host.after (m.attach target server share host) =
      ⟨host.cwd, host.tree, (m.attach target server share host).mounts⟩ := by
  rw [Host.after, h.attach]

theorem after_detach (target : Path) (host : Host σ) :
    host.after (m.detach target host) = ⟨host.cwd, host.tree, (m.detach target host).mounts⟩ := by
  rw [Host.after, h.detach]

end Mounter.KeepsFiles

/-- The path that a call is about. -/
def Call.target : Call → Path
  | .attach target _ _ | .detach target => target

namespace Tree

/-- Outside the directory of a volume called `name` the second tree is the first one, except that
directories may have been made on the way to the working directory and that the mount point may
have been made or removed as a directory. -/
def Kept (t t' : Tree) (working : Path) (cwd : Location) (name : String) : Prop :=
  ∀ l, ¬ working.location cwd ++ [name, name] <+: l →
    t'.get? l = t.get? l ∨
      (l ∈ working.way cwd ∧ t.get? l = none ∧ t'.get? l = some .directory) ∨
      (l = working.location cwd ++ [name] ∧ t.Open l ∧ t'.Open l)

variable {t t' t'' : Tree} {working p : Path} {cwd : Location} {name : String}

theorem Kept.refl : t.Kept t working cwd name :=
  fun _ _ => .inl rfl

theorem Kept.trans (h : t.Kept t' working cwd name) (h' : t'.Kept t'' working cwd name) :
    t.Kept t'' working cwd name := by
  intro l hl
  rcases h' l hl with heq' | ⟨hway, hnone', hthere'⟩ | ⟨hpoint, hopen', hopen''⟩
  · rw [Open, Open, heq']
    exact h l hl
  · rcases h l hl with heq | ⟨-, -, hthere⟩ | ⟨hpoint, hopen, -⟩
    · exact .inr (.inl ⟨hway, heq ▸ hnone', hthere'⟩)
    · rw [hthere] at hnone'
      cases hnone'
    · exact .inr (.inr ⟨hpoint, hopen, .inr hthere'⟩)
  · rcases h l hl with heq | ⟨-, hnone, -⟩ | ⟨-, hopen, -⟩
    · rw [Open, heq] at hopen'
      exact .inr (.inr ⟨hpoint, hopen', hopen''⟩)
    · exact .inr (.inr ⟨hpoint, .inl hnone, hopen''⟩)
    · exact .inr (.inr ⟨hpoint, hopen, hopen''⟩)

variable (hdown : ".." ∉ working.names) (hname : PlainName name)

include hname in
/-- The locations on the way to the directory of a volume. -/
theorem mem_way_volume {l : Location} :
    l ∈ ((working.child name).child name).way cwd ↔
      l ∈ working.way cwd ∨ l = working.location cwd ++ [name] ∨
        l = working.location cwd ++ [name, name] := by
  rw [Path.mem_way_child hname.ne_up, Path.mem_way_child hname.ne_up,
    Path.location_child hname.ne_up, List.append_assoc, or_assoc]
  rfl

include hdown hname in
/-- The mount point stays free of symbolic links. -/
theorem Kept.unlinked (h : t.Kept t' working cwd name)
    (hlinks : t.Unlinked cwd (working.child name)) : t'.Unlinked cwd (working.child name) := by
  intro l hl
  have houtside : ¬ working.location cwd ++ [name, name] <+: l := by
    rcases (Path.mem_way_child hname.ne_up).1 hl with hway | rfl
    · exact Path.not_below_of_mem_way hdown hway (by simp)
    · intro hin
      have hlength := hin.length_le
      simp at hlength
  rcases h l houtside with heq | ⟨-, -, hthere⟩ | ⟨-, -, hopen⟩
  · intro target
    rw [heq]
    exact hlinks l hl target
  · exact Open.linkless (.inr hthere)
  · exact hopen.linkless

variable (hnormal : working.Normal) (hlinks : t.Unlinked cwd (working.child name))
include hname hnormal hlinks

/-- A directory made by the path of a volume or of something above it. -/
theorem kept_of_makeDirectory (habove : p.Above ((working.child name).child name))
    (h : t.makeDirectory cwd p = .ok t') : t.Kept t' working cwd name := by
  by_cases hnames : p.names = []
  · obtain ⟨anchor, names, trailing⟩ := p
    obtain rfl : names = [] := hnames
    exact absurd h (create_nameless t cwd anchor trailing .directory t')
  obtain ⟨q, last, htrailing, rfl⟩ := Path.eq_child_of_trailing habove.trailing hnames
  have hq : q.Above (working.child name) := Path.above_of_child_above habove htrailing
  have hpoint := hnormal.child hname.isName
  obtain ⟨hlast, -, -, hfree, hput⟩ := create_child_ok (hq.normal hpoint)
    (hlinks.above hq) h
  have hself : q.location cwd ++ [last] ∈ (q.child last).way cwd :=
    (Path.mem_way_child hlast).2 (.inr rfl)
  intro l hl
  rw [hput]
  split
  · next heq =>
    subst heq
    rcases (mem_way_volume hname).1 (habove.mem_way hself) with hway | heq | heq
    · exact .inr (.inl ⟨hway, hfree, rfl⟩)
    · refine .inr (.inr ⟨heq, .inl hfree, .inr ?_⟩)
      rw [hput, if_pos rfl]
    · exact absurd (heq ▸ List.prefix_refl _) hl
  · exact .inl rfl

omit hname in
/-- The mount point removed. -/
theorem kept_of_removeDirectory (h : t.removeDirectory cwd (working.child name) = .ok t') :
    t.Kept t' working cwd name := by
  obtain ⟨-, -, -, hthere, -, hput⟩ := removeDirectory_child_ok hnormal hlinks.of_child h
  intro l _
  by_cases hl : l = working.location cwd ++ [name]
  · subst hl
    refine .inr (.inr ⟨rfl, .inr hthere, .inl ?_⟩)
    rw [hput, if_pos rfl]
  · rw [hput, if_neg hl]
    exact .inl rfl

/-- The directory of the volume removed with everything in it. -/
theorem kept_of_removeAll
    (h : t.removeAll cwd ((working.child name).child name) = .ok t') :
    t.Kept t' working cwd name := by
  have hpoint := hnormal.child hname.isName
  intro l hl
  refine .inl (removeAll_child_outside hpoint hname.ne_up hlinks h ?_)
  rw [Path.location_child hname.ne_up, List.append_assoc]
  exact hl

end Tree

namespace Procedure

/-- A procedure that makes directories on the way to `volume` only, looks at directories on the way
to `target` only, removes nothing but `volume` and an empty `target`, and calls the mounter for
`target` only, however it is replied to. -/
def Confined (target volume : Path) : Procedure α → Prop
  | done _ => True
  | now _ next => next.Confined target volume
  | makeDirectory p next => p.Above volume ∧ ∀ result, (next result).Confined target volume
  | isDirectory p next => p.Above target ∧ ∀ there, (next there).Confined target volume
  | removeDirectory p next => p = target ∧ ∀ result, (next result).Confined target volume
  | removeAll p next => p = volume ∧ ∀ result, (next result).Confined target volume
  | attach p _ _ next => p = target ∧ ∀ result, (next result).Confined target volume
  | detach p next => p = target ∧ ∀ result, (next result).Confined target volume

variable {target volume : Path}

theorem confined_bind {p : Procedure α} {f : α → Procedure β} (hp : p.Confined target volume)
    (hf : ∀ a, (f a).Confined target volume) : (p.bind f).Confined target volume := by
  induction p with
  | done a => exact hf a
  | now s next ih => exact ih hp
  | isDirectory _ next ih | makeDirectory _ next ih | removeDirectory _ next ih
  | removeAll _ next ih | attach _ _ _ next ih | detach _ next ih =>
    exact ⟨hp.1, fun result => ih result (hp.2 result)⟩

theorem confined_acceptExisting {p : Path} (hp : p.Above target) (result : Except Fault Unit) :
    (acceptExisting p result).Confined target volume := by
  cases result with
  | ok => trivial
  | error fault => exact ⟨hp, fun _ => trivial⟩

theorem confined_createDirectoriesFrom (htarget : target.Above volume) {above : List String}
    (habove : above.reverse <+: target.names) :
    (createDirectoriesFrom target.anchor false above).Confined target volume := by
  have hself : Path.Above ⟨target.anchor, above.reverse, false⟩ target := ⟨rfl, rfl, habove⟩
  induction above with
  | nil =>
    rw [createDirectoriesFrom]
    split
    · trivial
    · exact ⟨hself.trans htarget, confined_acceptExisting hself⟩
  | cons name above ih =>
    have hrest : above.reverse <+: target.names := by
      rw [List.reverse_cons] at habove
      exact (List.prefix_append _ _).trans habove
    rw [createDirectoriesFrom]
    refine ⟨hself.trans htarget, fun result => ?_⟩
    dsimp only
    split
    · refine confined_bind (ih hrest ⟨rfl, rfl, hrest⟩) fun upper => ?_
      cases upper with
      | ok => exact ⟨hself.trans htarget, confined_acceptExisting hself⟩
      | error fault => trivial
    · exact confined_acceptExisting hself _

theorem confined_removeMountPoint (target volume : Path) :
    (removeMountPoint target).Confined target volume :=
  ⟨rfl, fun _ => trivial⟩

theorem confined_detachBestEffort (target volume : Path) :
    (detachBestEffort target).Confined target volume := by
  refine ⟨rfl, fun result => ?_⟩
  cases result with
  | ok => exact confined_removeMountPoint target volume
  | error e => trivial

theorem confined_release (target volume : Path) : (release target).Confined target volume :=
  confined_bind (confined_detachBestEffort target volume) fun _ => trivial

/-- Once the mount point is made, or cannot be made, what remains is confined or nothing. -/
theorem whileAttached_split (target : Path) (server share : String) (work : Procedure α) :
    ∃ rest, whileAttached target server share work = (createDirectories target).bind rest ∧
      (∀ fault, ∃ e, rest (.error fault) = done (.error e)) ∧
      ∀ volume, work.Confined target volume → (rest (.ok ())).Confined target volume := by
  refine ⟨_, rfl, fun fault => ⟨_, rfl⟩, fun volume hwork => ⟨rfl, fun result => ?_⟩⟩
  cases result with
  | error e => exact confined_bind (confined_removeMountPoint target volume) fun _ => trivial
  | ok =>
    exact confined_bind hwork fun a =>
      confined_bind (confined_release target volume) fun _ => trivial

variable {working : Path} {name : String}

/-- One action of a confined procedure. -/
theorem kept_of_step {m : Mounter σ} (hm : m.KeepsFiles) (hnormal : working.Normal)
    (hname : PlainName name) {p q : Procedure α} {host host' : Host σ} {seen : List Happening}
    (hp : p.Confined (working.child name) ((working.child name).child name))
    (hlinks : host.tree.Unlinked host.cwd (working.child name))
    (h : p.step m host = some (q, host', seen)) :
    q.Confined (working.child name) ((working.child name).child name) ∧ host'.cwd = host.cwd ∧
      host.tree.Kept host'.tree working host.cwd name ∧
      ∀ call ∈ seen.filterMap Happening.call?, call.target = working.child name := by
  cases p with
  | done a => cases h
  | now s next =>
    cases h
    exact ⟨hp, rfl, .refl, by simp⟩
  | isDirectory path next =>
    cases h
    exact ⟨hp.2 _, rfl, .refl, by simp⟩
  | makeDirectory path next =>
    simp only [step, Host.makeDirectory, Host.change] at h
    split at h
    · next tree hmade =>
      cases h
      exact ⟨hp.2 _, rfl, Tree.kept_of_makeDirectory hname hnormal hlinks hp.1 hmade, by simp⟩
    · cases h
      exact ⟨hp.2 _, rfl, .refl, by simp⟩
  | removeDirectory path next =>
    obtain ⟨rfl, hnext⟩ := hp
    simp only [step, Host.removeDirectory, Host.change] at h
    split at h
    · next tree hremoved =>
      cases h
      exact ⟨hnext _, rfl, Tree.kept_of_removeDirectory hnormal hlinks hremoved, by simp⟩
    · cases h
      exact ⟨hnext _, rfl, .refl, by simp⟩
  | removeAll path next =>
    obtain ⟨rfl, hnext⟩ := hp
    simp only [step, Host.removeAll, Host.change] at h
    split at h
    · next tree hremoved =>
      cases h
      exact ⟨hnext _, rfl, Tree.kept_of_removeAll hname hnormal hlinks hremoved, by simp⟩
    · cases h
      exact ⟨hnext _, rfl, .refl, by simp⟩
  | attach path server share next =>
    obtain ⟨rfl, hnext⟩ := hp
    cases h
    refine ⟨hnext _, rfl, ?_, by simp [Happening.call?, Call.target]⟩
    rw [hm.after_attach]
    exact .refl
  | detach path next =>
    obtain ⟨rfl, hnext⟩ := hp
    cases h
    refine ⟨hnext _, rfl, ?_, by simp [Happening.call?, Call.target]⟩
    rw [hm.after_detach]
    exact .refl

/-- A whole run of a confined procedure. -/
theorem kept_of_run {m : Mounter σ} (hm : m.KeepsFiles) (hnormal : working.Normal)
    (hdown : ".." ∉ working.names) (hname : PlainName name) {p : Procedure α} {host : Host σ}
    (hp : p.Confined (working.child name) ((working.child name).child name))
    (hlinks : host.tree.Unlinked host.cwd (working.child name)) :
    host.tree.Kept (p.run m host).host.tree working host.cwd name ∧
      ∀ call ∈ (p.run m host).calls, call.target = working.child name := by
  let Inv (q : Procedure α) (host' : Host σ) (seen : List Happening) : Prop :=
    q.Confined (working.child name) ((working.child name).child name) ∧ host'.cwd = host.cwd ∧
      host.tree.Kept host'.tree working host.cwd name ∧
      ∀ call ∈ seen.filterMap Happening.call?, call.target = working.child name
  have hstep {q q' : Procedure α} {host₁ host₂ : Host σ} {seen earlier : List Happening}
      (hinv : Inv q host₁ earlier) (hs : q.step m host₁ = some (q', host₂, seen)) :
      Inv q' host₂ (earlier ++ seen) := by
    obtain ⟨hq, hcwd, hkept, hcalls⟩ := hinv
    have hlinks₁ := hkept.unlinked hdown hname hlinks
    rw [← hcwd] at hlinks₁
    obtain ⟨hq', hcwd', hkept', hcalls'⟩ := kept_of_step hm hnormal hname hq hlinks₁ hs
    rw [hcwd] at hkept'
    refine ⟨hq', hcwd'.trans hcwd, hkept.trans hkept', fun call hcall => ?_⟩
    rw [List.filterMap_append, List.mem_append] at hcall
    exact hcall.elim (hcalls call) (hcalls' call)
  have hstart : Inv p host [] := ⟨hp, rfl, .refl, by simp⟩
  have hrun := run_induction m hstep hstart
  exact ⟨hrun.2.2.1, hrun.2.2.2⟩

end Procedure

namespace Controller

theorem confined_closing (c : Controller) (p : Placement) (r : VolumeRequest)
    (result : Except Error (Except Fault Unit)) {target volume : Path} :
    (c.closing p r result).Confined target volume := by
  cases result with
  | error e => trivial
  | ok result =>
    rw [closing]
    induction closingEvents p r result with
    | nil => trivial
    | cons event events ih => exact ih

theorem confined_work (c : Controller) (p : Placement) (r : VolumeRequest) :
    (r.work (c.volumePath p)).Confined (c.mountPoint p) (c.volumePath p) := by
  cases r with
  | create request => exact ⟨⟨rfl, rfl, List.prefix_refl _⟩, fun _ => trivial⟩
  | delete id => exact ⟨rfl, fun _ => trivial⟩

theorem mountPoint_above (c : Controller) (p : Placement) :
    (c.mountPoint p).Above (c.volumePath p) :=
  ⟨rfl, rfl, List.prefix_append _ _⟩

/-- A request first makes its mount point, and then keeps to it. -/
theorem serve_split {c : Controller} {r : VolumeRequest} {p : Placement}
    (hscreen : c.screen r = .ok p) :
    ∃ rest, c.serve r = (Procedure.createDirectories (c.mountPoint p)).bind rest ∧
      (∀ fault, ∃ answer, rest (.error fault) = .done answer) ∧
      (rest (.ok ())).Confined (c.mountPoint p) (c.volumePath p) := by
  obtain ⟨rest, heq, hstop, hconfined⟩ := Procedure.whileAttached_split (c.mountPoint p) p.server
    p.baseSharePath (r.work (c.volumePath p))
  refine ⟨fun made => (rest made).bind (c.closing p r), ?_, fun fault => ?_, ?_⟩
  · rw [serve_eq, hscreen]
    dsimp only
    rw [onVolume, heq, Procedure.bind_assoc]
  · obtain ⟨e, he⟩ := hstop fault
    refine ⟨.error e, ?_⟩
    dsimp only
    rw [he]
    rfl
  · exact Procedure.confined_bind (hconfined _ (confined_work c p r)) fun result =>
      confined_closing c p r result

/-- A request is confined to its mount point. -/
theorem confined_serve {c : Controller} {r : VolumeRequest} {p : Placement}
    (hscreen : c.screen r = .ok p) :
    (c.serve r).Confined (c.mountPoint p) (c.volumePath p) := by
  obtain ⟨rest, heq, hstop, hconfined⟩ := serve_split hscreen
  have hcreate : (Procedure.createDirectories (c.mountPoint p)).Confined (c.mountPoint p)
      (c.volumePath p) :=
    Procedure.confined_createDirectoriesFrom (mountPoint_above c p) (by simp)
  rw [heq]
  refine Procedure.confined_bind hcreate fun made => ?_
  cases made with
  | ok => exact hconfined
  | error fault =>
    obtain ⟨answer, hanswer⟩ := hstop fault
    rw [hanswer]
    trivial

variable {c : Controller} {m : Mounter σ} {host : Host σ} {r : VolumeRequest}

/-- No request escapes its mount point. Suppose that the mounter leaves files alone, that the path
of the working directory holds no `..`, and that no symbolic link stands on the way to the mount
point of the request. A request that is answered at once changes nothing and calls nobody. Any other
one calls the mounter for one entry of the working directory only, which has a plain name. Whatever
stood outside of that entry still stands there, what is new outside of it are directories on the
way to the working directory that were missing, and what stood in it is still there as well, the
directory of the volume apart. So nothing is changed that links inside the volume lead to. -/
theorem request_stays_inside (hm : m.KeepsFiles) (hnormal : c.working.Normal)
    (hdown : ".." ∉ c.working.names)
    (hlinks : ∀ p, c.screen r = .ok p →
      host.tree.Unlinked host.cwd (c.working.child p.name)) :
    let o := (c.serve r).run m host
    let point (name : String) : Location := c.working.location host.cwd ++ [name]
    match c.screen r with
    | .error answer => o.answer = answer ∧ o.host = host ∧ o.calls = []
    | .ok p =>
      PlainName p.name ∧ (∀ call ∈ o.calls, call.target = c.working.child p.name) ∧
        (∀ l e, ¬ point p.name <+: l → host.tree.get? l = some e → o.host.tree.get? l = some e) ∧
        (∀ l e, ¬ point p.name <+: l → o.host.tree.get? l = some e →
          host.tree.get? l = some e ∨
            e = .directory ∧ host.tree.get? l = none ∧ l ∈ c.working.way host.cwd) ∧
        ∀ s, s ≠ [] → ¬ [p.name] <+: s →
          o.host.tree.get? (point p.name ++ s) = host.tree.get? (point p.name ++ s) := by
  dsimp only
  cases hscreen : c.screen r with
  | error answer =>
    rw [serve_eq, hscreen]
    exact ⟨rfl, rfl, rfl⟩
  | ok p =>
    have hname := (plain_of_screen hscreen).name
    obtain ⟨hkept, hcalls⟩ := Procedure.kept_of_run hm hnormal hdown hname (confined_serve hscreen)
      (hlinks p hscreen)
    dsimp only
    generalize (c.serve r).run m host = o at *
    have houtside {l : Location} (hl : ¬ c.working.location host.cwd ++ [p.name] <+: l) :
        o.host.tree.get? l = host.tree.get? l ∨ l ∈ c.working.way host.cwd ∧
          host.tree.get? l = none ∧ o.host.tree.get? l = some .directory := by
      have hvolume : ¬ c.working.location host.cwd ++ [p.name, p.name] <+: l := fun hin =>
        hl (((List.prefix_append_right_inj _).2 (List.prefix_append [p.name] [p.name])).trans hin)
      rcases hkept l hvolume with heq | hmade | ⟨rfl, -, -⟩
      · exact .inl heq
      · exact .inr hmade
      · exact absurd (List.prefix_refl _) hl
    refine ⟨hname, hcalls, fun l e hl he => ?_, fun l e hl he => ?_, fun s hs hvolume => ?_⟩
    · rcases houtside hl with heq | ⟨-, hnone, -⟩
      · rw [heq, he]
      · rw [hnone] at he
        cases he
    · rcases houtside hl with heq | ⟨hway, hnone, hthere⟩
      · exact .inl (heq ▸ he)
      · rw [hthere] at he
        exact .inr ⟨(Option.some.inj he).symm, hnone, hway⟩
    · rw [List.append_assoc]
      have hbeside : ¬ c.working.location host.cwd ++ [p.name, p.name] <+:
          c.working.location host.cwd ++ ([p.name] ++ s) := by
        intro hin
        have hin' := (List.prefix_append_right_inj _).1 hin
        exact hvolume ((List.prefix_append_right_inj [p.name]).1 hin')
      rcases hkept _ hbeside with heq | ⟨hway, -, -⟩ | ⟨heq, -, -⟩
      · exact heq
      · exact absurd (List.prefix_refl _) (Path.not_below_of_mem_way hdown hway (by simp))
      · exact absurd (List.append_cancel_left heq) (by simp [hs])

namespace Sample

/-- A tree with a directory and those above it. -/
def withDirectory (t : Tree) (l : Location) : Tree :=
  ((Procedure.createDirectories ⟨.root, l, false⟩).run .inert ⟨[], t, ()⟩).host.tree

/-- A volume in which a link leads to a directory with a file outside. -/
def linked : Tree :=
  let directories := withDirectory (withDirectory .bare ["work", "vol1", "vol1"]) ["etc"]
  let made := do
    let t ← directories.writeFile [] ⟨.root, ["etc", "kept"], false⟩ "here"
    t.makeLink [] ⟨.root, ["work", "vol1", "vol1", "out"], false⟩ "/etc"
  made.toOption.getD .bare

/-- The volume is removed with the link, and what the link leads to stays. -/
theorem delete_keeps_what_links_lead_to :
    controller.screen (.delete ⟨"s1/base/vol1"⟩) = .ok ⟨"s1", "base", "vol1"⟩ ∧
      linked.Unlinked [] (controller.working.child "vol1") ∧
      linked.get? ["work", "vol1", "vol1", "out"] = some (.link "/etc") ∧
      let o := (controller.serve (.delete ⟨"s1/base/vol1"⟩)).run .inert ⟨[], linked, ()⟩
      o.host.tree.get? ["work", "vol1", "vol1", "out"] = none ∧
        o.host.tree.get? ["etc", "kept"] = some (.file "here") := by
  have hscreen : controller.screen (.delete ⟨"s1/base/vol1"⟩) = .ok ⟨"s1", "base", "vol1"⟩ := by
    rfl
  have hway : linked.Passable [] (controller.working.child "vol1") := by
    unfold Tree.Passable
    decide +kernel
  have hlink : linked.get? ["work", "vol1", "vol1", "out"] = some (.link "/etc") := by
    decide +kernel
  have hkept : linked.get? ["etc", "kept"] = some (.file "here") := by decide +kernel
  have houtside : ¬ controller.working.location [] ++ ["vol1"] <+: ["etc", "kept"] := by
    decide +kernel
  have hstays : ∀ r, controller.screen r = .ok ⟨"s1", "base", "vol1"⟩ →
      ((controller.serve r).run .inert ⟨[], linked, ()⟩).host.tree.get? ["etc", "kept"] =
        some (.file "here") := by
    intro r hr
    have hinside := @request_stays_inside Unit controller .inert ⟨[], linked, ()⟩ r
      Mounter.keepsFiles_inert (normal_start (by simp)) (by decide) (fun p hp => by
        rw [hr] at hp
        obtain rfl := Except.ok.inj hp
        exact hway.unlinked)
    rw [hr] at hinside
    obtain ⟨-, -, hsame, -⟩ := hinside
    exact hsame ["etc", "kept"] _ houtside hkept
  exact ⟨hscreen, hway.unlinked, hlink, by decide +kernel, hstays _ hscreen⟩

end Sample
end Controller
end NfsProvisioner
