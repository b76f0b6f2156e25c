import NfsProvisioner.Proofs.Recognition
import NfsProvisioner.Proofs.Repetition

/-!
# What making a volume leaves

On a way without symbolic links, making a volume comes to one of three things. If nothing is in the
way then the directories that are missing down to the volume are made, and nothing else. If
something stands where the volume is to be made, whatever it is, or if something that is no
directory stands above, then nothing at all is changed. The mount point is never taken away again:
wherever the request gets that far, there is a volume in it.
-/
namespace NfsProvisioner

variable {σ : Type}

/-- What the work on the directory of a volume comes to. -/
def VolumeRequest.result (r : VolumeRequest) (t : Tree) (cwd : Location) (path : Path) :
    Except Fault Unit :=
  ((r.work path).run .inert ⟨cwd, t, ()⟩).answer

namespace VolumeRequest

theorem result_create (request : CreateVolumeRequest) (t : Tree) (cwd : Location) (path : Path) :
    (create request).result t cwd path =
      match t.makeDirectory cwd path with
      | .ok _ => .ok ()
      | .error fault => .error fault := by
  simp only [result, work, Procedure.run, Host.makeDirectory, Host.change]
  cases t.makeDirectory cwd path <;> rfl

theorem result_delete (id : VolumeId) (t : Tree) (cwd : Location) (path : Path) :
    (delete id).result t cwd path =
      match t.removeAll cwd path with
      | .ok _ => .ok ()
      | .error fault => .error fault := by
  simp only [result, work, Procedure.run, Host.removeAll, Host.change]
  cases t.removeAll cwd path <;> rfl

end VolumeRequest

/-- The way of an entry is that of its directory and the entry. -/
theorem Path.way_child_eq {p : Path} {cwd : Location} {name : String} (h : name ≠ "..") :
    (p.child name).way cwd = p.way cwd ++ [(p.child name).location cwd] := by
  rw [way_child, location_child h, enter, if_neg h]

namespace Tree

/-- The second tree is the first one with all directories that are missing at some locations. -/
def Completed (t u : Tree) (places : List Location) : Prop :=
  ∀ l, u.get? l = if l ∈ places ∧ t.get? l = none then some .directory else t.get? l

variable {t u v : Tree} {cwd l : Location} {places : List Location} {p q : Path} {name : String}
  {fault : Fault}

theorem Grows.completed (h : t.Grows u places) (hthere : ∀ l ∈ places, u.get? l ≠ none) :
    t.Completed u places := by
  intro l
  split
  · next hmissing =>
    rcases h l with heq | ⟨-, -, hmade⟩
    · exact absurd (heq.trans hmissing.2) (hthere l hmissing.1)
    · exact hmade
  · next hkept =>
    rcases h l with heq | ⟨hl, hnone, -⟩
    · exact heq
    · exact absurd ⟨hl, hnone⟩ hkept

theorem Completed.put (h : t.Completed u places) (hfree : t.get? l = none)
    (hput : u.Put v l (some .directory)) : t.Completed v (places ++ [l]) := by
  intro k
  rw [hput, h]
  by_cases hk : k = l
  · subst hk
    simp [hfree]
  · simp [hk]

/-- Nothing is made beyond the end of a way. -/
theorem Completed.beyond (h : t.Completed u (p.way cwd)) (hdown : ".." ∉ p.names) {r : Location}
    (hr : r ≠ []) : u.get? (p.location cwd ++ r) = t.get? (p.location cwd ++ r) := by
  rw [h, if_neg]
  rintro ⟨hmem, -⟩
  exact Path.not_below_of_mem_way hdown hmem hr (List.prefix_refl _)

theorem Passable.put (h : t.Passable cwd p) (hput : t.Put u l (some .directory)) :
    u.Passable cwd p := by
  intro k hk
  rw [hput]
  split
  · rfl
  · exact h k hk

/-- Above whatever is there, everything is a directory. -/
theorem passable_of_below (hdown : ".." ∉ p.names) {r : Location} (hr : r ≠ [])
    (h : t.get? (p.location cwd ++ r) ≠ none) : t.Passable cwd p := by
  intro l hl
  obtain ⟨s, hs⟩ := Path.prefix_of_mem_way hdown hl
  obtain ⟨e, he⟩ := Option.ne_none_iff_exists'.1 h
  rw [← hs, List.append_assoc] at he
  exact get?_of_append (by simp [hr]) he

section

variable (hnormal : (q.child name).Normal) (hlinks : t.Unlinked cwd (q.child name))
include hnormal hlinks

theorem grows_of_made {answer : Except Fault Unit}
    (hmade : t.made cwd (q.child name) = (answer, u)) : t.Grows u ((q.child name).way cwd) := by
  have hmakes := (@Procedure.createDirectories_makesWay Unit .inert _ ⟨cwd, t, ()⟩ hnormal rfl
    hlinks).2.grows
  rwa [Procedure.run_createDirectories, hmade] at hmakes

/-- All of the way to a directory that has been made is there. -/
theorem passable_of_made (hmade : t.made cwd (q.child name) = (.ok (), u)) :
    (q.child name).Usable ∧ u.Passable cwd (q.child name) := by
  have hname := hnormal name (List.mem_append_right _ (List.mem_singleton_self _))
  have hthere : u.isDirectory cwd (q.child name) = true :=
    @isDirectory_of_made t u cwd ⟨q.anchor, q.names, false⟩ name rfl hname hmade
  exact (isDirectory_iff hnormal rfl (unlinked_made hnormal hlinks rfl hmade hlinks)).1 hthere

/-- Making a directory makes all that is missing on its way, and nothing else. -/
theorem completed_of_made (hmade : t.made cwd (q.child name) = (.ok (), u)) :
    t.Completed u ((q.child name).way cwd) := by
  refine (grows_of_made hnormal hlinks hmade).completed fun l hl => ?_
  rw [(passable_of_made hnormal hlinks hmade).2 l hl]
  exact Option.some_ne_none _

/-- Where nothing is in the way, a directory can be made. -/
theorem made_of_clear (hstart : t.get? ((q.child name).start cwd) = some .directory)
    (hclear : t.Clear cwd (q.child name)) (husable : (q.child name).Usable) :
    ∃ u, t.made cwd (q.child name) = (.ok (), u) := by
  have hmakes := (@Procedure.createDirectories_makesWay Unit .inert _ ⟨cwd, t, ()⟩ hnormal rfl
    hlinks).2.made hstart hclear fun _ => husable
  rw [Procedure.run_createDirectories] at hmakes
  exact ⟨_, Prod.ext hmakes rfl⟩

/-- If something that is no directory is in the way of a directory then it cannot be made, and
neither is anything above it. -/
theorem made_of_blocked (hdown : ".." ∉ (q.child name).names) {e : Entry}
    (hl : l ∈ (q.child name).way cwd) (hthere : t.get? l = some e) (he : e ≠ .directory) :
    ∃ fault, t.made cwd (q.child name) = (.error fault, t) := by
  rcases hmade : t.made cwd (q.child name) with ⟨fault | ⟨⟩, u⟩
  · have hgrows := grows_of_made hnormal hlinks hmade
    have hstays : u.get? l = some e := by
      rcases hgrows l with heq | ⟨-, hnone, -⟩
      · rw [heq, hthere]
      · rw [hnone] at hthere
        cases hthere
    refine ⟨fault, ?_⟩
    obtain rfl : u = t := by
      apply ext_get?
      intro k
      rcases hgrows k with heq | ⟨hk, hnone, hnew⟩
      · exact heq
      -- What has been made is above or below the obstacle, and can be neither.
      rcases List.prefix_or_prefix_of_prefix (Path.prefix_of_mem_way hdown hk)
        (Path.prefix_of_mem_way hdown hl) with ⟨r, rfl⟩ | ⟨r, rfl⟩
      · rw [get?_append_of_none hnone] at hthere
        cases hthere
      · have hr : r ≠ [] := by
          rintro rfl
          rw [List.append_nil, hthere] at hnone
          cases hnone
        rw [get?_of_append hr hnew] at hstays
        exact absurd (Option.some.inj hstays).symm he
    rfl
  · have hpass := (passable_of_made hnormal hlinks hmade).2 l hl
    rcases grows_of_made hnormal hlinks hmade l with heq | ⟨-, hnone, -⟩
    · rw [heq, hthere] at hpass
      exact absurd (Option.some.inj hpass) he
    · rw [hnone] at hthere
      cases hthere

end
end Tree

namespace Controller

variable {c : Controller} {m : Mounter σ} {p : Placement} {r : VolumeRequest} {host : Host σ}

/-- No `..` and no symbolic link is on the way to the mount point of a volume, and the host takes
the path of the volume. -/
structure Straight (c : Controller) (p : Placement) (t : Tree) (cwd : Location) : Prop where
  normal : c.working.Normal
  down : ".." ∉ c.working.names
  name : PlainName p.name
  unlinked : t.Unlinked cwd (c.mountPoint p)
  usable : (c.volumePath p).Usable

namespace Straight

variable {t : Tree} {cwd : Location} (h : c.Straight p t cwd)
include h

theorem normal_point : (c.mountPoint p).Normal :=
  h.normal.child h.name.isName

theorem down_point : ".." ∉ (c.mountPoint p).names :=
  Path.not_up_mem_child h.down h.name.ne_up

theorem down_volume : ".." ∉ (c.volumePath p).names :=
  Path.not_up_mem_child h.down_point h.name.ne_up

theorem usable_point : (c.mountPoint p).Usable :=
  h.usable.of_child rfl (Path.text_child_ne_empty h.name.nonempty)

theorem location_volume :
    (c.volumePath p).location cwd = (c.mountPoint p).location cwd ++ [p.name] :=
  Path.location_child h.name.ne_up

/-- A mount point that is there is found. -/
theorem made_of_passable (hpass : t.Passable cwd (c.mountPoint p)) :
    t.made cwd (c.mountPoint p) = (.ok (), t) :=
  Tree.made_of_isDirectory h.name.isName
    ((Tree.isDirectory_iff h.normal_point rfl h.unlinked).2 ⟨h.usable_point, hpass⟩)

/-- With something in it, the mount point is not removed. -/
theorem cleared_of_occupied {u : Tree} (hpass : u.Passable cwd (c.mountPoint p)) {r : Location}
    (hr : r ≠ []) (hfull : u.get? ((c.mountPoint p).location cwd ++ r) ≠ none) :
    u.cleared cwd (c.mountPoint p) = u := by
  obtain ⟨habove, hdirectory⟩ := (Tree.passable_child_iff h.name.ne_up).1 hpass
  rw [mountPoint, Path.location_child h.name.ne_up] at hfull
  exact (habove.arrives h.normal h.usable_point).cleared_of_occupied
    (h.usable_point.takes h.name.ne_up) hdirectory hr hfull

end Straight

/-- A request whose mount point cannot be made. -/
theorem run_serve_of_not_made (hscreen : c.screen r = .ok p) {u : Tree} {fault : Fault}
    (hmade : host.tree.made host.cwd (c.mountPoint p) = (.error fault, u)) :
    (c.serve r).run m host =
      ⟨.error (.mountFailed (c.mountPoint p).text ("create mount point: " ++ fault.message)),
        { host with tree := u }, []⟩ := by
  rw [run_serve_of_screen hscreen]
  dsimp only
  rw [Procedure.run_createDirectories, hmade]

/-- A request whose export is attached is answered with what the work comes to. If the mounter
leaves the files alone, the tree is the one after the work, without the mount point if that is empty
and the export could be detached. -/
theorem run_serve_of_made (hm : m.KeepsFiles)
    (hattach : ∀ target server share host, (m.attach target server share host).result = .ok ())
    (hscreen : c.screen r = .ok p) {u : Tree}
    (hmade : host.tree.made host.cwd (c.mountPoint p) = (.ok (), u)) :
    let o := (c.serve r).run m host
    let done := r.effect u host.cwd (c.volumePath p)
    o.answer = c.conclusion p r (r.result u host.cwd (c.volumePath p)) ∧
      ∃ held : σ,
        let reply := m.detach (c.mountPoint p) ⟨host.cwd, done, held⟩
        o.host = ⟨host.cwd,
          match reply.result with
          | .ok () => done.cleared host.cwd (c.mountPoint p)
          | .error _ => done, reply.mounts⟩ := by
  dsimp only
  constructor
  · have hwork (host : Host σ) : ((r.work (c.volumePath p)).run m host).answer =
        r.result host.tree host.cwd (c.volumePath p) :=
      congrArg Outcome.answer
        (Procedure.run_of_filesOnly (Procedure.filesOnly_work r _) m .inert host ())
    rw [run_serve_of_screen hscreen]
    dsimp only
    rw [Procedure.run_createDirectories, hmade]
    dsimp only
    rw [hattach]
    dsimp only
    rw [hwork, hm.after_attach]
  · refine ⟨(m.attach (c.mountPoint p) p.server p.baseSharePath { host with tree := u }).mounts, ?_⟩
    rw [host_serve_of_made hscreen hmade]
    exact visited_of_attached_kept hm p r _ (hattach _ _ _ _)

section

variable {request : CreateVolumeRequest} (hm : m.KeepsFiles)
  (hattach : ∀ target server share host, (m.attach target server share host).result = .ok ())
  (hscreen : c.screen (.create request) = .ok p) (h : c.Straight p host.tree host.cwd)
include hscreen h

include hm hattach in
/-- Where nothing is in the way, the volume is made with all that is missing above it. -/
theorem serve_create_of_clear
    (hstart : host.tree.get? (c.working.start host.cwd) = some .directory)
    (hclear : host.tree.Clear host.cwd (c.mountPoint p))
    (hfree : host.tree.get? ((c.volumePath p).location host.cwd) = none) :
    let o := (c.serve (.create request)).run m host
    o.answer = .ok (some (p.toVolume request.requiredBytes)) ∧
      host.tree.Completed o.host.tree ((c.volumePath p).way host.cwd) ∧
      ∀ r, r ≠ [] → o.host.tree.get? ((c.volumePath p).location host.cwd ++ r) = none := by
  obtain ⟨u, hmade⟩ := Tree.made_of_clear h.normal_point h.unlinked hstart hclear h.usable_point
  have hcompleted : host.tree.Completed u ((c.mountPoint p).way host.cwd) :=
    Tree.completed_of_made h.normal_point h.unlinked hmade
  have hpass : u.Passable host.cwd (c.mountPoint p) :=
    (Tree.passable_of_made h.normal_point h.unlinked hmade).2
  have hfree' : u.get? ((c.mountPoint p).location host.cwd ++ [p.name]) = none := by
    rw [hcompleted.beyond h.down_point (List.cons_ne_nil p.name []), ← h.location_volume, hfree]
  obtain ⟨v, hmaking, hput⟩ : ∃ v, u.makeDirectory host.cwd (c.volumePath p) = .ok v ∧
      u.Put v ((c.mountPoint p).location host.cwd ++ [p.name]) (some .directory) :=
    Tree.create_child_of_free .directory h.normal_point h.name.ne_up h.usable hpass hfree'
  have hcompleted' : host.tree.Completed v ((c.volumePath p).way host.cwd) := by
    rw [volumePath, Path.way_child_eq h.name.ne_up]
    exact hcompleted.put hfree (h.location_volume ▸ hput)
  have hfull : v.get? ((c.mountPoint p).location host.cwd ++ [p.name]) ≠ none := by
    rw [hput, if_pos rfl]
    exact Option.some_ne_none _
  obtain ⟨hanswer, held, hhost⟩ := run_serve_of_made hm hattach hscreen hmade
  rw [VolumeRequest.result_create, hmaking] at hanswer
  rw [VolumeRequest.effect_create, hmaking] at hhost
  dsimp only at hhost
  rw [h.cleared_of_occupied (hpass.put hput) (List.cons_ne_nil p.name []) hfull] at hhost
  have htree : ((c.serve (.create request)).run m host).host.tree = v := by
    rw [hhost]
    dsimp only
    split <;> rfl
  refine ⟨hanswer, ?_⟩
  rw [htree]
  refine ⟨hcompleted', fun r hr => ?_⟩
  rw [hcompleted'.beyond h.down_volume hr]
  exact Tree.get?_append_of_none hfree r

include hm hattach in
/-- Where something stands already, nothing is made. -/
theorem serve_create_of_taken
    (htaken : host.tree.get? ((c.volumePath p).location host.cwd) ≠ none) :
    let o := (c.serve (.create request)).run m host
    o.answer = .error (.internal ("failed to make subdirectory " ++ (c.volumePath p).text ++ ": " ++
        Fault.alreadyExists.message)) ∧ o.host.tree = host.tree := by
  rw [h.location_volume] at htaken
  have hpass : host.tree.Passable host.cwd (c.mountPoint p) :=
    Tree.passable_of_below h.down_point (List.cons_ne_nil p.name []) htaken
  have hmaking : host.tree.makeDirectory host.cwd (c.volumePath p) = .error .alreadyExists :=
    Tree.create_child_of_taken .directory h.normal_point h.name.ne_up h.usable hpass htaken
  obtain ⟨hanswer, held, hhost⟩ := run_serve_of_made hm hattach hscreen (h.made_of_passable hpass)
  rw [VolumeRequest.result_create, hmaking] at hanswer
  rw [VolumeRequest.effect_create, hmaking] at hhost
  dsimp only at hhost
  rw [h.cleared_of_occupied hpass (List.cons_ne_nil p.name []) htaken] at hhost
  refine ⟨hanswer, ?_⟩
  rw [hhost]
  dsimp only
  split <;> rfl

/-- Where the mount point cannot be made, nothing else is done. -/
theorem serve_create_of_blocked {l : Location} {e : Entry}
    (hl : l ∈ (c.mountPoint p).way host.cwd) (hthere : host.tree.get? l = some e)
    (he : e ≠ .directory) :
    ∃ fault : Fault, (c.serve (.create request)).run m host =
      ⟨.error (.mountFailed (c.mountPoint p).text ("create mount point: " ++ fault.message)), host,
        []⟩ := by
  obtain ⟨fault, hmade⟩ :=
    Tree.made_of_blocked h.normal_point h.unlinked h.down_point hl hthere he
  exact ⟨fault, run_serve_of_not_made hscreen hmade⟩

end

/-- Making a volume is exact and destroys nothing. Suppose that the mounter leaves files alone and
attaches what it is asked to, whatever comes of detaching; that the path of the working directory
holds no `..`, and no symbolic link stands on the way to the mount point; and that the request
passes its checks and the host takes the path of its volume. If the way to the volume starts at a
directory, nothing but directories stands above the volume and nothing in its place, then the
volume is made: what is there afterwards is what was there before, with a directory wherever one
was missing on the way to the volume, the volume itself being empty. If anything stands in its
place, or something that is no directory above it, the request fails and nothing is changed; in the
latter case the mounter is not even called. -/
theorem creation_is_exact {request : CreateVolumeRequest} (hm : m.KeepsFiles)
    (hattach : ∀ target server share host, (m.attach target server share host).result = .ok ())
    (hnormal : c.working.Normal) (hdown : ".." ∉ c.working.names)
    (hlinks : host.tree.Unlinked host.cwd (c.working.child request.name))
    (hvet : c.vet request = .ok p)
    (husable : ((c.working.child request.name).child request.name).Usable) :
    let point := c.working.child request.name
    let volume := point.child request.name
    let o := (c.createVolume request).run m host
    (host.tree.get? (c.working.start host.cwd) = some .directory →
      host.tree.Clear host.cwd point → host.tree.get? (volume.location host.cwd) = none →
        o.answer = .ok (p.toVolume request.requiredBytes) ∧
          host.tree.Completed o.host.tree (volume.way host.cwd) ∧
          ∀ r, r ≠ [] → o.host.tree.get? (volume.location host.cwd ++ r) = none) ∧
    (host.tree.get? (volume.location host.cwd) ≠ none →
      o.answer = .error (.internal ("failed to make subdirectory " ++ volume.text ++ ": " ++
          Fault.alreadyExists.message)) ∧ o.host.tree = host.tree) ∧
    ((∃ l ∈ point.way host.cwd, ∃ e, host.tree.get? l = some e ∧ e ≠ .directory) →
      (∃ fault : Fault, o.answer =
          .error (.mountFailed point.text ("create mount point: " ++ fault.message))) ∧
        o.calls = [] ∧ o.host = host) := by
  have hscreen : c.screen (.create request) = .ok p := by
    rw [screen, hvet]
  have hsame : p.name = request.name := (Placement.given_of_read (vet_inv hvet).2.2).1
  rw [← hsame] at hlinks husable ⊢
  have h : c.Straight p host.tree host.cwd :=
    ⟨hnormal, hdown, (plain_of_screen hscreen).name, hlinks, husable⟩
  obtain ⟨hhost, htrace, hok, herror⟩ := run_createVolume c m request host
  dsimp only
  rw [hhost, Outcome.calls, htrace]
  refine ⟨fun hstart hclear hfree => ?_, fun htaken => ?_, fun hblocked => ?_⟩
  · obtain ⟨hanswer, htree⟩ := serve_create_of_clear hm hattach hscreen h hstart hclear hfree
    exact ⟨(hok _).2 hanswer, htree⟩
  · obtain ⟨hanswer, htree⟩ := serve_create_of_taken hm hattach hscreen h htaken
    exact ⟨(herror _).2 hanswer, htree⟩
  · obtain ⟨l, hl, e, hthere, he⟩ := hblocked
    obtain ⟨fault, hrun⟩ := serve_create_of_blocked (m := m) hscreen h hl hthere he
    refine ⟨⟨fault, (herror _).2 ?_⟩, ?_⟩
    · rw [hrun]
      rfl
    · rw [hrun]
      exact ⟨rfl, rfl⟩

namespace Sample

/-- A mounter that attaches everything and can detach nothing. -/
def clinging : Mounter Unit :=
  Mounter.inert.failing none (some (.internal "device is busy"))

/-- A volume in its mount point. -/
def occupied : Tree :=
  withDirectory .bare ["work", "vol1", "vol1"]

/-- A file where the working directory should be. -/
def misplaced : Tree :=
  (Tree.bare.writeFile [] ⟨.root, ["work"], false⟩ "here").toOption.getD .bare

/-- A volume made from nothing, asked for once more, and one whose way is blocked. -/
theorem creation_leaves_exactly_the_volume :
    let create (t : Tree) := (controller.createVolume Sample.request).run clinging ⟨[], t, ()⟩
    ((create .bare).answer = .ok (Placement.toVolume ⟨"s1", "base", "vol1"⟩ 0) ∧
        (create .bare).host.tree.get? ["work", "vol1", "vol1"] = some .directory ∧
        (create .bare).host.tree.get? ["etc"] = none) ∧
      ((∃ reason, (create occupied).answer = .error (.internal reason)) ∧
        (create occupied).host.tree = occupied) ∧
      ((∃ reason, (create misplaced).answer = .error (.mountFailed "/work/vol1" reason)) ∧
        (create misplaced).calls = [] ∧ (create misplaced).host.tree = misplaced) := by
  dsimp only
  have hexact (t : Tree) (hlinks : t.Unlinked [] (controller.working.child "vol1")) :=
    @creation_is_exact Unit controller clinging ⟨"s1", "base", "vol1"⟩ ⟨[], t, ()⟩ Sample.request
      ⟨fun _ _ _ _ => rfl, fun _ _ => rfl⟩ (fun _ _ _ _ => rfl) (normal_start (by simp)) (by decide)
      hlinks (by rfl) ⟨Tree.checkOperand_iff.2 (by decide +kernel), by decide +kernel⟩
  have hbytes : Sample.request.requiredBytes = 0 := rfl
  rw [hbytes] at hexact
  dsimp only at hexact
  have hclear : Tree.bare.Clear [] (controller.working.child "vol1") :=
    fun l _ => Tree.open_bare l
  have hthere : occupied.Passable [] (controller.working.child "vol1") := by
    unfold Tree.Passable
    decide +kernel
  have hmisplaced : misplaced.Unlinked [] (controller.working.child "vol1") := by
    have hlinkless : ∀ l ∈ (controller.working.child "vol1").way [],
        misplaced.get? l ∈ [none, some .directory, some (.file "here")] := by
      decide +kernel
    intro l hl target hlink
    have hmem := hlinkless l hl
    rw [hlink] at hmem
    simp at hmem
  refine ⟨?_, ?_, ?_⟩
  · obtain ⟨hanswer, hcompleted, -⟩ :=
      (hexact .bare hclear.unlinked).1 rfl hclear (by decide +kernel)
    have hvolume := hcompleted ["work", "vol1", "vol1"]
    have hetc := hcompleted ["etc"]
    rw [if_pos (by decide +kernel)] at hvolume
    rw [if_neg (by decide +kernel)] at hetc
    exact ⟨hanswer, hvolume, hetc⟩
  · obtain ⟨hanswer, htree⟩ := (hexact occupied hthere.unlinked).2.1 (by decide +kernel)
    exact ⟨⟨_, hanswer⟩, htree⟩
  · obtain ⟨⟨fault, hanswer⟩, hcalls, hhost⟩ := (hexact misplaced hmisplaced).2.2
      ⟨["work"], by decide +kernel, .file "here", by decide +kernel, by decide⟩
    exact ⟨⟨_, hanswer⟩, hcalls, congrArg Host.tree hhost⟩

end Sample
end Controller
end NfsProvisioner
