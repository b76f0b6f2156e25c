import NfsProvisioner.Proofs.Creation

/-!
# What a probe says and what it leaves

A probe makes the working directory and those above it that are missing. Its answer says whether the
working path leads to a directory afterwards, whatever stood on the way before: other files,
symbolic links that lead somewhere or nowhere, or a part of the way. What it makes, it makes where
the path leads, and a second probe finds everything as the first one has left it.

Where a probe is answered with yes, volumes can be made: nothing that making a mount point of its
own could stumble over is left.
-/
namespace NfsProvisioner

variable {σ : Type}

namespace Tree

variable {t u v : Tree} {cwd l : Location} {p q : Path} {name : String} {fault : Fault}

/-- The second tree is the first one with some missing directories made, each where the path or the
part of it up to some name leads to. -/
def Paved (t u : Tree) (cwd : Location) (p : Path) : Prop :=
  ∀ l, u.get? l = t.get? l ∨
    t.get? l = none ∧ u.get? l = some .directory ∧ ∃ q : Path, q.Above p ∧ u.Arrives cwd q l

theorem Paved.refl : t.Paved t cwd p :=
  fun _ => .inl rfl

theorem Paved.within (h : t.Paved u cwd p) : t.Within u := by
  intro l e hl
  rcases h l with heq | ⟨hnone, -, -⟩
  · rw [heq, hl]
  · rw [hnone] at hl
    cases hl

theorem Paved.trans (h : t.Paved u cwd p) (h' : u.Paved v cwd p) : t.Paved v cwd p := by
  intro l
  rcases h' l with heq | ⟨hnone, hthere, hleads⟩
  · rcases h l with heq' | ⟨hnone, hthere, q, habove, harrives⟩
    · exact .inl (heq.trans heq')
    · exact .inr ⟨hnone, heq.trans hthere, q, habove, harrives.mono h'.within⟩
  · refine .inr ⟨?_, hthere, hleads⟩
    rcases h l with heq | ⟨hnone, -, -⟩
    · rw [← heq, hnone]
    · exact hnone

/-- What leads to a directory on the way of `p` does so on the way of `q`. -/
theorem Paved.of_above (h : t.Paved u cwd p) (hanchor : p.anchor = q.anchor)
    (hnames : p.names <+: q.names) : t.Paved u cwd q := by
  intro l
  rcases h l with heq | ⟨hnone, hthere, r, habove, harrives⟩
  · exact .inl heq
  · exact .inr ⟨hnone, hthere, r,
      ⟨habove.anchor.trans hanchor, habove.trailing, habove.names.trans hnames⟩, harrives⟩

/-- An attempt makes at most the directory itself. -/
theorem paved_attempt (hname : Path.isName name = true) :
    t.Paved (t.attempt cwd (q.child name)).2 cwd (q.child name) := by
  rcases hattempt : t.attempt cwd (q.child name) with ⟨fault | ⟨⟩, u⟩
  · obtain rfl := attempt_error_inv hattempt
    exact Paved.refl
  rcases attempt_ok_inv hattempt with ⟨l, hgains⟩ | ⟨rfl, -⟩
  · intro k
    by_cases hk : k = l ++ [name]
    · subst hk
      have hself : (q.child name).Above (q.child name) := ⟨rfl, rfl, List.prefix_refl _⟩
      exact .inr ⟨hgains.free, hgains.directory, q.child name, hself,
        (hgains.arrives.mono hgains.within).child hname hgains.takes hgains.directory⟩
    · exact .inl ((hgains.put k).trans (if_neg hk))
  · exact Paved.refl

/-- Making a directory and those above it makes directories where the parts of its path lead. -/
theorem paved_made (hq : q.Normal) (htrailing : q.trailing = false) :
    t.Paved (t.made cwd q).2 cwd q := by
  induction q, htrailing using Path.child_induction with
  | nameless anchor =>
    rw [made_nameless]
    exact Paved.refl
  | child q name htrailing ih =>
    have hname := hq name (List.mem_append_right _ (List.mem_singleton_self _))
    have hupper : t.Paved (t.made cwd q).2 cwd (q.child name) :=
      (ih fun n hn => hq n (List.mem_append_left _ hn)).of_above rfl (List.prefix_append _ _)
    rcases @made_child_cases t cwd q name htrailing with
      ⟨-, hmade⟩ | ⟨-, upper, ⟨reason, habove, hfailed⟩ | ⟨habove, hmade⟩⟩
    · rw [hmade]
      exact paved_attempt hname
    · rw [hfailed]
      rwa [habove] at hupper
    · rw [hmade]
      rw [habove] at hupper
      exact hupper.trans (paved_attempt hname)

/-- What making a directory and those above it leaves: the answer is true, nothing but missing
directories has been made, and doing it again changes neither. -/
structure Settles (t : Tree) (cwd : Location) (p : Path) (answer : Except Fault Unit) (u : Tree) :
    Prop where
  truthful : answer = .ok () ↔ u.isDirectory cwd p = true
  paved : t.Paved u cwd p
  again : ((u.made cwd p).1 = .ok () ↔ answer = .ok ()) ∧ (u.made cwd p).2 = u

/-- A path without names leads to where it starts, and nothing can be made there. -/
theorem settles_of_nameless (hnames : p.names = []) (hanchor : p.anchor ≠ .here) :
    t.Settles cwd p (t.made cwd p).1 (t.made cwd p).2 := by
  obtain ⟨fault, hmade⟩ : ∃ fault, t.made cwd p =
      (if t.isDirectory cwd p then .ok () else .error fault, t) := by
    obtain ⟨anchor, names, trailing⟩ := p
    obtain rfl : names = [] := hnames
    cases hattempt : t.makeDirectory cwd ⟨anchor, [], trailing⟩ with
    | ok made => exact absurd hattempt (create_nameless t cwd anchor trailing .directory made)
    | error fault =>
      refine ⟨fault, ?_⟩
      unfold made Procedure.createDirectories
      simp only [List.reverse_nil, Procedure.createDirectoriesFrom, if_neg hanchor]
      rw [Procedure.run_makeDirectory, hattempt]
  rw [hmade]
  refine ⟨?_, Paved.refl, ?_, ?_⟩
  · cases t.isDirectory cwd p <;> simp
  · rw [hmade]
  · rw [hmade]

/-- Without a slash at its end, a path is settled by what has been made or could not be made. -/
theorem settles_of_child (hq : (q.child name).Normal) (htrailing : q.trailing = false) :
    t.Settles cwd (q.child name) (t.made cwd (q.child name)).1 (t.made cwd (q.child name)).2 := by
  have hname := hq name (List.mem_append_right _ (List.mem_singleton_self _))
  have hpaved : t.Paved (t.made cwd (q.child name)).2 cwd (q.child name) := paved_made hq rfl
  rcases hmade : t.made cwd (q.child name) with ⟨fault | ⟨⟩, u⟩
  · rw [hmade] at hpaved
    obtain ⟨reason, hagain⟩ := made_of_not_made hq rfl hmade
    have hmissing : u.isDirectory cwd (q.child name) ≠ true := by
      intro hthere
      rw [made_of_isDirectory hname hthere] at hagain
      cases hagain
    refine ⟨by simp [hmissing], hpaved, ?_, ?_⟩
    · simp [hagain]
    · rw [hagain]
  · rw [hmade] at hpaved
    have hthere := isDirectory_of_made htrailing hname hmade
    have hagain := made_of_made htrailing hname hmade
    refine ⟨by simp [hthere], hpaved, ?_, ?_⟩
    · rw [hagain]
    · rw [hagain]

/-- Two paths with the same names come to the same if every attempt at them does. -/
theorem made_congr (hanchor : p.anchor = q.anchor) (hnames : p.names = q.names)
    (hne : q.names ≠ []) (hattempt : ∀ t : Tree, t.makeDirectory cwd p = t.makeDirectory cwd q)
    (hthere : ∀ t : Tree, t.isDirectory cwd p = t.isDirectory cwd q) :
    t.made cwd p = t.made cwd q := by
  obtain ⟨anchor, names, trailing⟩ := p
  obtain ⟨_, _, trailing'⟩ := q
  obtain rfl := hanchor
  obtain rfl := hnames
  obtain ⟨name, above, hreverse⟩ : ∃ name above, names.reverse = name :: above :=
    List.exists_cons_of_ne_nil fun hnil => hne (List.reverse_eq_nil_iff.1 hnil)
  obtain rfl : names = (name :: above).reverse := by
    rw [← hreverse, List.reverse_reverse]
  dsimp only at hattempt hthere
  unfold made Procedure.createDirectories
  simp only [List.reverse_reverse]
  by_cases hmissing : t.makeDirectory cwd ⟨anchor, (name :: above).reverse, trailing'⟩ =
      .error .notFound
  · have hmissing' := (hattempt t).trans hmissing
    rw [Procedure.run_createDirectoriesFrom_of_missing hmissing',
      Procedure.run_createDirectoriesFrom_of_missing hmissing]
    dsimp only
    simp only [Procedure.run_makeDirectory, Procedure.cwd_of_filesOnly
      (Procedure.filesOnly_createDirectoriesFrom anchor false above), hattempt, hthere]
  · have hmissing' : t.makeDirectory cwd ⟨anchor, (name :: above).reverse, trailing⟩ ≠
        .error .notFound := fun h => hmissing ((hattempt t).symm.trans h)
    rw [Procedure.run_createDirectoriesFrom_of_ne hmissing',
      Procedure.run_createDirectoriesFrom_of_ne hmissing]
    simp only [Procedure.run_makeDirectory, hattempt, hthere]

/-- A path leads to a directory, with or without a slash at its end, if its text is taken and its
names lead there. -/
theorem isDirectory_iff_arrives :
    t.isDirectory cwd p = true ↔ checkOperand p.text = .ok () ∧ ∃ l, t.Arrives cwd p l := by
  constructor
  · intro h
    refine ⟨?_, arrives_of_isDirectory h⟩
    unfold isDirectory resolve at h
    cases htext : checkOperand p.text with
    | ok => rfl
    | error fault =>
      rw [htext] at h
      cases h
  · rintro ⟨htext, l, harrives⟩
    have hresolve : t.resolve cwd p = .ok l := by
      rw [resolve, htext]
      refine walk_extend Within.refl (fun follow => ?_) harrives.walk
      split
      · exact walkWith_cons_ok_iff.2 ⟨harrives.directory, .inl ⟨.inl rfl, rfl⟩⟩
      · rfl
    rw [isDirectory, hresolve]
    exact beq_iff_eq.2 harrives.directory

/-- Where the host does not even take the text of a path, nothing is made. -/
theorem settles_of_refused (hnames : p.names ≠ []) (hne : p.text ≠ "")
    (htext : checkOperand p.text = .error fault) :
    t.Settles cwd p (t.made cwd p).1 (t.made cwd p).2 := by
  have hmissing (t : Tree) : t.isDirectory cwd p = false := by
    rw [Bool.eq_false_iff]
    intro hthere
    have htaken := (isDirectory_iff_arrives.1 hthere).1
    rw [htext] at htaken
    cases htaken
  have hfound : fault ≠ .notFound := fun heq => hne (eq_empty_of_checkOperand (heq ▸ htext))
  have hmade : t.made cwd p = (.error fault, t) := by
    obtain ⟨anchor, names, trailing⟩ := p
    obtain ⟨name, above, hreverse⟩ : ∃ name above, names.reverse = name :: above :=
      List.exists_cons_of_ne_nil fun hnil => hnames (List.reverse_eq_nil_iff.1 hnil)
    obtain rfl : names = (name :: above).reverse := by
      rw [← hreverse, List.reverse_reverse]
    have hattempt : t.makeDirectory cwd ⟨anchor, (name :: above).reverse, trailing⟩ =
        .error fault := by
      rw [makeDirectory, create, slot, htext]
      rfl
    unfold made Procedure.createDirectories
    simp only [List.reverse_reverse]
    rw [Procedure.run_createDirectoriesFrom_of_ne, Procedure.run_makeDirectory]
    · dsimp only
      rw [hattempt]
      dsimp only
      rw [hmissing]
      rfl
    · rw [hattempt]
      exact fun heq => hfound (Except.error.inj heq)
  rw [hmade]
  refine ⟨by simp [hmissing], Paved.refl, ?_, ?_⟩ <;> rw [hmade]

/-- A slash at the end makes no difference where the host takes it. -/
theorem settles_of_slash {anchor : Anchor} {names : List String} (hnames : names ≠ [])
    (htext : checkOperand (Path.text ⟨anchor, names, true⟩) = .ok ())
    (htext' : checkOperand (Path.text ⟨anchor, names, false⟩) = .ok ())
    (h : t.Settles cwd ⟨anchor, names, false⟩ (t.made cwd ⟨anchor, names, false⟩).1
      (t.made cwd ⟨anchor, names, false⟩).2) :
    t.Settles cwd ⟨anchor, names, true⟩ (t.made cwd ⟨anchor, names, true⟩).1
      (t.made cwd ⟨anchor, names, true⟩).2 := by
  have hthere (t : Tree) :
      t.isDirectory cwd ⟨anchor, names, true⟩ = t.isDirectory cwd ⟨anchor, names, false⟩ := by
    rw [Bool.eq_iff_iff, isDirectory_iff_arrives, isDirectory_iff_arrives, htext, htext']
    refine and_congr_right fun _ => exists_congr fun l => ?_
    exact ⟨fun ⟨hwalk, hdirectory⟩ => ⟨hwalk, hdirectory⟩,
      fun ⟨hwalk, hdirectory⟩ => ⟨hwalk, hdirectory⟩⟩
  have hattempt (t : Tree) :
      t.makeDirectory cwd ⟨anchor, names, true⟩ = t.makeDirectory cwd ⟨anchor, names, false⟩ := by
    rw [makeDirectory, makeDirectory, create, create, slot, slot, htext, htext']
    rfl
  have hmade (t : Tree) : t.made cwd ⟨anchor, names, true⟩ = t.made cwd ⟨anchor, names, false⟩ :=
    made_congr rfl rfl hnames hattempt hthere
  rw [hmade]
  refine ⟨?_, h.paved.of_above rfl (List.prefix_refl _), ?_⟩
  · rw [hthere]
    exact h.truthful
  · rw [hmade]
    exact h.again

/-- Whatever a tree holds, making a directory by an absolute path settles it. -/
theorem settles_made (hp : p.Normal) (hanchor : p.anchor ≠ .here) :
    t.Settles cwd p (t.made cwd p).1 (t.made cwd p).2 := by
  by_cases hnames : p.names = []
  · exact settles_of_nameless hnames hanchor
  obtain ⟨anchor, names, trailing⟩ := p
  obtain ⟨q, name, htrailing, hq⟩ := @Path.eq_child_of_trailing ⟨anchor, names, false⟩ rfl hnames
  have hnormal : (q.child name).Normal := hq ▸ hp
  have hsettles : t.Settles cwd ⟨anchor, names, false⟩ (t.made cwd ⟨anchor, names, false⟩).1
      (t.made cwd ⟨anchor, names, false⟩).2 := by
    rw [hq]
    exact settles_of_child hnormal htrailing
  cases trailing with
  | false => exact hsettles
  | true =>
    have hne : Path.text ⟨anchor, names, false⟩ ≠ "" :=
      hq ▸ Path.text_child_ne_empty hnormal.last_ne_empty
    have hslash : Path.text ⟨anchor, names, true⟩ = Path.text ⟨anchor, names, false⟩ ++ "/" := by
      simp [Path.text, show names ≠ [] from hnames]
    cases htext : checkOperand (Path.text ⟨anchor, names, true⟩) with
    | error fault =>
      refine settles_of_refused hnames ?_ htext
      rw [hslash]
      simp
    | ok =>
      obtain ⟨hnul, -, hlong⟩ := checkOperand_iff.1 htext
      rw [hslash] at hnul hlong
      rw [String.toList_append, List.mem_append, not_or] at hnul
      rw [String.utf8ByteSize_append] at hlong
      have htext' := checkOperand_iff.2 ⟨hnul.1, hne, by omega⟩
      exact settles_of_slash hnames htext htext' hsettles

end Tree

namespace Controller

variable {c : Controller} {m : Mounter σ} {p : Placement} {host : Host σ} {l : Location}
  {request : CreateVolumeRequest}

/-- What a probe comes to. -/
theorem run_probe (c : Controller) (m : Mounter σ) (host : Host σ) :
    c.probe.run m host =
      let made := host.tree.made host.cwd c.working
      match made.1 with
      | .ok () => ⟨true, { host with tree := made.2 }, []⟩
      | .error fault =>
        ⟨false, { host with tree := made.2 },
          [.logged (workingDirectoryUnusable c.working fault)]⟩ := by
  rw [probe, Procedure.run_bind, Procedure.run_createDirectories]
  dsimp only
  cases (host.tree.made host.cwd c.working).1 <;> rfl

theorem host_probe (c : Controller) (m : Mounter σ) (host : Host σ) :
    (c.probe.run m host).host =
      { host with tree := (host.tree.made host.cwd c.working).2 } := by
  rw [run_probe]
  dsimp only
  split <;> rfl

theorem answer_probe_iff (c : Controller) (m : Mounter σ) (host : Host σ) :
    (c.probe.run m host).answer = true ↔ (host.tree.made host.cwd c.working).1 = .ok () := by
  rw [run_probe]
  dsimp only
  split
  · next hmade => simp [hmade]
  · next fault hmade => simp [hmade]

/-- The working path of a controller started with a directory is absolute. -/
theorem anchor_start {driver : Driver} {settings : Settings} {cwd : Location}
    (h : settings.workingDirectory ≠ "") :
    (start driver settings cwd).working.anchor ≠ .here := by
  unfold start Path.absolute
  rw [if_neg h]
  cases hanchor : Path.anchorOf settings.workingDirectory.toList <;> simp

/-- Where the working path leads to a directory, a volume can be made under every name that is free
there. -/
theorem create_of_arrives (hm : m.KeepsFiles)
    (hattach : ∀ target server share host, (m.attach target server share host).result = .ok ())
    (hvet : c.vet request = .ok p) (harrives : host.tree.Arrives host.cwd c.working l)
    (hshort : request.name.utf8ByteSize ≤ Tree.maxNameBytes)
    (htext : Tree.checkOperand ((c.working.child request.name).child request.name).text = .ok ())
    (hfree : host.tree.get? (l ++ [request.name]) = none) :
    ((c.createVolume request).run m host).answer = .ok (p.toVolume request.requiredBytes) := by
  have hscreen : c.screen (.create request) = .ok p := by
    rw [screen, hvet]
  have hsame : p.name = request.name := (Placement.given_of_read (vet_inv hvet).2.2).1
  have hplain : PlainName p.name := (plain_of_screen hscreen).name
  rw [← hsame] at hshort htext hfree
  have htakes : (c.mountPoint p).Takes p.name := ⟨hplain.ne_up, hshort, htext⟩
  have habove : c.working.Takes p.name := htakes.above hplain.nonempty hplain.ne_up hshort
  obtain ⟨u, hmade, hput⟩ := harrives.made_of_free habove hfree
  have hpoint : u.get? (l ++ [p.name]) = some .directory := (hput _).trans (if_pos rfl)
  have hwithin : host.tree.Within u := Tree.within_of_outside hfree fun _ hk => hput.outside hk
  have hinside : u.get? (l ++ [p.name] ++ [p.name]) = none := by
    rw [hput, if_neg (by simp), Tree.get?_append_of_none hfree]
  obtain ⟨v, hvolume, -⟩ := ((harrives.mono hwithin).child hplain.isName habove
    hpoint).create_of_free htakes .directory hinside
  have hanswer := (run_serve_of_made hm hattach hscreen hmade).1
  rw [VolumeRequest.result_create] at hanswer
  change u.makeDirectory host.cwd (c.volumePath p) = .ok v at hvolume
  rw [hvolume] at hanswer
  exact ((run_createVolume c m request host).2.2.1 _).2 hanswer

/-- A probe tells the truth and does no harm. Suppose that the controller has been started with a
working directory, in a current directory with ordinary names. Whatever the tree holds, the probe is
answered with yes exactly if the working path leads to a directory afterwards. Nothing is removed or
changed, and what is made are missing directories where the working path, or a part of it, leads to.
The mounter is not called. A second probe is answered as the first one was and changes nothing.

If the answer is yes, the mounter leaves files alone, and attaching does not fail, then every
request for a volume is answered with that volume if it passes its checks, the host takes the name
and the path of the volume, and nothing of that name stands in the working directory. -/
theorem probe_tells_the_truth {driver : Driver} {settings : Settings} {cwd : Location}
    (hcwd : ∀ name ∈ cwd, Path.isName name = true) (hworking : settings.workingDirectory ≠ "")
    (m : Mounter σ) (host : Host σ) :
    let c := start driver settings cwd
    let o := c.probe.run m host
    let again := c.probe.run m o.host
    (o.answer = true ↔ o.host.tree.isDirectory host.cwd c.working = true) ∧
      host.tree.Paved o.host.tree host.cwd c.working ∧
      o.host = { host with tree := o.host.tree } ∧ o.calls = [] ∧
      again.answer = o.answer ∧ again.host = o.host ∧
      (o.answer = true → m.KeepsFiles →
        (∀ target server share host, (m.attach target server share host).result = .ok ()) →
        ∀ (request : CreateVolumeRequest) (p : Placement), c.vet request = .ok p →
          request.name.utf8ByteSize ≤ Tree.maxNameBytes →
          Tree.checkOperand ((c.working.child request.name).child request.name).text = .ok () →
          (∀ l, o.host.tree.Arrives host.cwd c.working l →
            o.host.tree.get? (l ++ [request.name]) = none) →
          ((c.createVolume request).run m o.host).answer =
            .ok (p.toVolume request.requiredBytes)) := by
  intro c o again
  have hsettles : host.tree.Settles host.cwd c.working (host.tree.made host.cwd c.working).1
      (host.tree.made host.cwd c.working).2 :=
    Tree.settles_made (normal_start hcwd) (anchor_start hworking)
  have hhost : o.host = { host with tree := (host.tree.made host.cwd c.working).2 } :=
    host_probe c m host
  have htruth : o.answer = true ↔ o.host.tree.isDirectory host.cwd c.working = true := by
    rw [hhost]
    exact (answer_probe_iff c m host).trans hsettles.truthful
  refine ⟨htruth, ?_, ?_, calls_probe c m host, ?_, ?_, ?_⟩
  · rw [hhost]
    exact hsettles.paved
  · rw [hhost]
  · rw [Bool.eq_iff_iff]
    refine (answer_probe_iff c m o.host).trans (Iff.trans ?_ (answer_probe_iff c m host).symm)
    rw [hhost]
    exact hsettles.again.1
  · have hagain : again.host = _ := host_probe c m o.host
    rw [hagain, hhost]
    dsimp only
    rw [hsettles.again.2]
  · intro hyes hm hattach request p hvet hshort htext hfree
    obtain ⟨-, l, harrives⟩ := Tree.isDirectory_iff_arrives.1 (htruth.1 hyes)
    have hcwd' : o.host.cwd = host.cwd := by rw [hhost]
    exact create_of_arrives hm hattach hvet (hcwd' ▸ harrives) hshort htext (hfree l harrives)

namespace Sample

/-- The directory `/data`, and a symbolic link to it. -/
def aliased : Tree :=
  ((withDirectory .bare ["data"]).makeLink [] ⟨.root, ["srv"], false⟩ "data").toOption.getD .bare

/-- Works in a directory that is still missing, below the link. -/
def belowLink : Controller :=
  .start {} { workingDirectory := "/srv/nfs/" } []

/-- A probe makes the working directory where the link leads, and a volume can be made there. -/
theorem probe_follows_link :
    let o := belowLink.probe.run .inert ⟨[], aliased, ()⟩
    o.answer = true ∧ o.host.tree.get? ["data", "nfs"] = some .directory ∧
      ((belowLink.createVolume Sample.request).run .inert o.host).answer =
        .ok (Placement.toVolume ⟨"s1", "base", "vol1"⟩ 0) := by
  have htells := @probe_tells_the_truth Unit {} { workingDirectory := "/srv/nfs/" } []
    (by simp) (by decide) .inert ⟨[], aliased, ()⟩
  dsimp only at htells ⊢
  rw [← belowLink] at htells
  generalize hprobe : belowLink.probe.run .inert ⟨[], aliased, ()⟩ = o at htells ⊢
  have hthere : o.host.tree.isDirectory [] belowLink.working = true := by
    rw [← hprobe]
    decide +kernel
  have hdirectory : o.host.tree.get? ["data", "nfs"] = some .directory := by
    rw [← hprobe]
    decide +kernel
  have hfree : o.host.tree.get? ["data", "nfs", "vol1"] = none := by
    rw [← hprobe]
    decide +kernel
  have hresolve : (o.host.tree.resolve [] belowLink.working).toOption = some ["data", "nfs"] := by
    rw [← hprobe]
    decide +kernel
  obtain ⟨htruth, -, -, -, -, -, hcreates⟩ := htells
  have hanswer : o.answer = true := htruth.2 hthere
  refine ⟨hanswer, hdirectory, ?_⟩
  refine hcreates hanswer Mounter.keepsFiles_inert (fun _ _ _ _ => rfl) Sample.request
    ⟨"s1", "base", "vol1"⟩ (by rfl) (by decide +kernel)
    (Tree.checkOperand_iff.2 (by decide +kernel)) fun l hl => ?_
  cases hleads : o.host.tree.resolve [] belowLink.working with
  | error fault =>
    rw [hleads] at hresolve
    cases hresolve
  | ok k =>
    rw [hleads] at hresolve
    obtain rfl := Option.some.inj hresolve
    obtain rfl := hl.unique (Tree.arrives_of_resolve hleads hdirectory)
    exact hfree

end Sample
end Controller
end NfsProvisioner
