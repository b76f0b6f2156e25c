import NfsProvisioner.Proofs.Actions
import NfsProvisioner.Proofs.Confinement
import NfsProvisioner.Proofs.VolumeIds

/-!
# What was made is found again

A volume is made from the parameters of a request and removed by its id alone. Both lead to the same
placement, so the removal visits the same export at the same mount point and works on the same path.
If the mounter leaves files alone and never fails, making a volume, using it and removing it again
comes to nothing: the tree is what it was.
-/
namespace NfsProvisioner

variable {σ : Type}

/-- A mounter of which no call fails. -/
structure Mounter.NeverFails (m : Mounter σ) : Prop where
  attach : ∀ target server share host, (m.attach target server share host).result = .ok ()
  detach : ∀ target host, (m.detach target host).result = .ok ()

theorem Mounter.neverFails_inert : (inert : Mounter σ).NeverFails :=
  ⟨fun _ _ _ _ => rfl, fun _ _ => rfl⟩

/-- The request has a parameter with a value, under whatever spelling of its key. -/
def CreateVolumeRequest.Gives (request : CreateVolumeRequest) (parameter : Parameter)
    (value : String) : Prop :=
  ∃ key, Parameter.ofKey? key = some parameter ∧ request.parameters[key]? = some value

/-- What the caller is told about the volume at a placement that its request asked for. -/
structure Describes (c : Controller) (request : CreateVolumeRequest) (volume : Volume)
    (p : Placement) : Prop where
  placement : volume.id.placement = .ok p
  name : p.name = request.name
  server : ∀ value, request.Gives .server value ↔ value = p.server
  baseDir : ∀ value, request.Gives .baseDir value ↔ value = p.baseDir
  context : ∃ server share, volume.context.toList = [("server", server), ("share", share)] ∧
    volume.id.text = server ++ share
  capacity : volume.capacityBytes =
    match request.capacityRange with
    | some range => range.requiredBytes
    | none => 0
  capabilities : c.validateVolumeCapabilities volume.id request.capabilities = .ok true

namespace Tree

/-- The second tree is the first one with a volume called `name`, its mount point and whatever has
been put into the volume. -/
def Used (t u : Tree) (working : Location) (name : String) : Prop :=
  ∀ k, (working ++ [name, name] <+: k → k = working ++ [name, name]) →
    u.get? k =
      if k = working ++ [name] ∨ k = working ++ [name, name] then some .directory else t.get? k

namespace Used

variable {t u : Tree} {cwd working : Location} {q : Path} {name : String}

theorem point (h : t.Used u working name) : u.get? (working ++ [name]) = some .directory := by
  rw [h _ fun hin => ?_, if_pos (.inl rfl)]
  have hlength := hin.length_le
  simp at hlength

theorem volume (h : t.Used u working name) :
    u.get? (working ++ [name] ++ [name]) = some .directory := by
  rw [List.append_assoc]
  exact (h _ fun _ => rfl).trans (if_pos (.inr rfl))

theorem outside (h : t.Used u working name) {k : Location} (hk : ¬ working ++ [name] <+: k) :
    u.get? k = t.get? k := by
  have hbelow : working ++ [name] <+: working ++ [name, name] :=
    (List.prefix_append_right_inj _).2 (List.prefix_append [name] [name])
  rw [h k fun hin => absurd (hbelow.trans hin) hk, if_neg]
  rintro (rfl | rfl)
  · exact hk (List.prefix_refl _)
  · exact hk hbelow

theorem beside (h : t.Used u working name) (hfree : t.get? (working ++ [name]) = none)
    {r : Location} (hr : r ≠ [])
    (hvolume : ¬ working ++ [name] ++ [name] <+: working ++ [name] ++ r) :
    u.get? (working ++ [name] ++ r) = none := by
  have hself : working ++ [name] ++ [name] = working ++ [name, name] := by simp
  rw [hself] at hvolume
  rw [h _ fun hin => absurd hin hvolume, if_neg]
  · exact get?_append_of_none hfree r
  · rintro (heq | heq)
    · exact hr (List.append_right_eq_self.1 heq)
    · exact hvolume (heq ▸ List.prefix_refl _)

/-- Removing the volume and then its mount point gives back the first tree. -/
theorem removals_restore (h : t.Used u working name) (harrives : t.Arrives cwd q working)
    (hfree : t.get? (working ++ [name]) = none) (hname : PlainName name) (hpoint : q.Takes name)
    (hvolume : (q.child name).Takes name) :
    ∃ u', u.removeAll cwd ((q.child name).child name) = .ok u' ∧
      u'.removeDirectory cwd (q.child name) = .ok t := by
  have hnotAbove := Location.child_not_above (working ++ [name]) name
  have hin {k : Location} (hk : ¬ working ++ [name] <+: k) :
      ¬ working ++ [name] ++ [name] <+: k :=
    fun hbelow => hk ((List.prefix_append _ _).trans hbelow)
  have hused : u.Arrives cwd q working :=
    harrives.mono (within_of_outside hfree fun _ hk => h.outside hk)
  -- The way to the volume does not lead through it, so it stays when the volume is cleared.
  have hstays : (u.clear (working ++ [name] ++ [name])).Arrives cwd (q.child name)
      (working ++ [name]) := by
    have hcleared : t.Within (u.clear (working ++ [name] ++ [name])) :=
      within_of_outside hfree fun k hk => by
        rw [get?_clear, if_neg fun hbelow => hin hk hbelow.1, h.outside hk]
    have hthere : (u.clear (working ++ [name] ++ [name])).get? (working ++ [name]) =
        some .directory := by
      rw [get?_clear, if_neg fun hbelow => hnotAbove hbelow.1, h.point]
    exact (harrives.mono hcleared).child hname.isName hpoint hthere
  obtain ⟨u', hremoved, hpruned⟩ :=
    (hused.child hname.isName hpoint h.point).removeAll_of_directory hvolume h.volume hstays
  have hremains : t.Within u' := within_of_outside hfree fun k hk => by
    rw [hpruned, if_neg (hin hk), h.outside hk]
  have hthere : u'.get? (working ++ [name]) = some .directory := by
    rw [hpruned, if_neg hnotAbove, h.point]
  have hbare : ∀ r, r ≠ [] → u'.get? (working ++ [name] ++ r) = none := by
    intro r hr
    rw [hpruned]
    split
    · rfl
    · next hbeside => exact h.beside hfree hr hbeside
  obtain ⟨left, hleft, hgone⟩ :=
    (harrives.mono hremains).removeDirectory_of_bare hpoint hthere hbare
  obtain rfl : left = t := by
    apply ext_get?
    intro k
    rw [hgone]
    split
    · next hbelow =>
      obtain ⟨r, rfl⟩ := hbelow
      exact (get?_append_of_none hfree r).symm
    · next hoff => rw [hpruned, if_neg (hin hoff), h.outside hoff]
  exact ⟨u', hremoved, hleft⟩

end Used

/-- In a directory that is new under some name, another one of that name can be made, and then the
first one cannot be removed. -/
theorem Arrives.make_inside {t u : Tree} {cwd l : Location} {q : Path} {name : String}
    (h : t.Arrives cwd q l) (hname : PlainName name) (htakes : q.Takes name)
    (hinside : (q.child name).Takes name) (hfree : t.get? (l ++ [name]) = none)
    (hput : t.Put u (l ++ [name]) (some .directory)) :
    ∃ v, u.makeDirectory cwd ((q.child name).child name) = .ok v ∧
      v.removeDirectory cwd (q.child name) = .error .notEmpty ∧
      v.Arrives cwd (q.child name) (l ++ [name]) ∧
      ∀ k, v.get? k =
        if k = l ++ [name] ∨ k = l ++ [name, name] then some .directory else t.get? k := by
  have hself : l ++ [name] ++ [name] = l ++ [name, name] := by simp
  have hwithin : t.Within u := within_of_outside hfree fun _ hk => hput.outside hk
  have hfound : u.Arrives cwd (q.child name) (l ++ [name]) :=
    (h.mono hwithin).child hname.isName htakes ((hput _).trans (if_pos rfl))
  have hmissing : u.get? (l ++ [name] ++ [name]) = none := by
    rw [hput, if_neg (by simp)]
    exact get?_append_of_none hfree _
  obtain ⟨v, hmade, hput'⟩ := hfound.create_of_free hinside .directory hmissing
  have hwithin' : u.Within v := within_of_outside hmissing fun _ hk => hput'.outside hk
  have hfound' := hfound.mono hwithin'
  refine ⟨v, hmade, ?_, hfound', fun k => ?_⟩
  · apply (h.mono (hwithin.trans hwithin')).removeDirectory_of_full htakes hfound'.directory
      (List.cons_ne_nil name [])
    rw [hput', if_pos rfl]
    exact Option.some_ne_none _
  · rw [hput', hput, hself]
    by_cases hk : k = l ++ [name, name]
    · rw [if_pos hk, if_pos (.inr hk)]
    · simp [hk]

end Tree

namespace ParameterValues

/-- The value of a parameter so far. -/
def value (values : ParameterValues) : Parameter → Option String
  | .server => values.server
  | .baseDir => values.baseDir

theorem add_of_named {key : String} {named : Parameter} (h : Parameter.ofKey? key = some named)
    (values : ParameterValues) (given : String) :
    ∃ next, values.add (key, given) = .ok next ∧ ∀ parameter,
      next.value parameter = if parameter = named then some given else values.value parameter := by
  unfold add
  dsimp only
  rw [h]
  cases named with
  | server => exact ⟨_, rfl, fun parameter => by cases parameter <;> rfl⟩
  | baseDir => exact ⟨_, rfl, fun parameter => by cases parameter <;> rfl⟩

theorem add_of_unnamed {key : String} (h : Parameter.ofKey? key = none) (values : ParameterValues)
    (given : String) : values.add (key, given) = .error (.unknown key) := by
  unfold add
  dsimp only
  rw [h]

theorem value_of_add {values values' : ParameterValues} {key given : String}
    (h : values.add (key, given) = .ok values') {parameter : Parameter} {v : String}
    (hv : values'.value parameter = some v) :
    values.value parameter = some v ∨ Parameter.ofKey? key = some parameter ∧ given = v := by
  cases hkey : Parameter.ofKey? key with
  | none =>
    rw [add_of_unnamed hkey] at h
    cases h
  | some named =>
    obtain ⟨next, hnext, hvalue⟩ := add_of_named hkey values given
    obtain rfl : next = values' := Except.ok.inj (hnext.symm.trans h)
    rw [hvalue] at hv
    split at hv
    · next hsame => exact .inr ⟨congrArg some hsame.symm, Option.some.inj hv⟩
    · exact .inl hv

/-- Whatever value a parameter has in the end was there before or comes from an entry. -/
theorem value_of_foldlM {entries : List (String × String)} {values values' : ParameterValues}
    (h : entries.foldlM add values = .ok values') {parameter : Parameter} {v : String}
    (hv : values'.value parameter = some v) :
    values.value parameter = some v ∨
      ∃ key, (key, v) ∈ entries ∧ Parameter.ofKey? key = some parameter := by
  induction entries generalizing values with
  | nil =>
    obtain rfl := Except.ok.inj h
    exact .inl hv
  | cons entry rest ih =>
    obtain ⟨key, given⟩ := entry
    rw [List.foldlM_cons] at h
    cases hadd : values.add (key, given) with
    | error fault =>
      rw [hadd] at h
      cases h
    | ok next =>
      rw [hadd] at h
      rcases ih h with hnext | ⟨key', hmem, hkey'⟩
      · rcases value_of_add hadd hnext with hv | ⟨hkey, rfl⟩
        · exact .inl hv
        · exact .inr ⟨key, List.mem_cons_self, hkey⟩
      · exact .inr ⟨key', List.mem_cons_of_mem _ hmem, hkey'⟩

end ParameterValues

namespace Placement

/-- A placement is made of values that were given. -/
theorem given_of_read {name : String} {entries : List (String × String)} {p : Placement}
    (h : read name entries = .ok p) :
    p.name = name ∧
      (∃ key, (key, p.server) ∈ entries ∧ Parameter.ofKey? key = some .server) ∧
      ∃ key, (key, p.baseDir) ∈ entries ∧ Parameter.ofKey? key = some .baseDir := by
  obtain ⟨values, hvalues, ⟨hserver, -⟩, ⟨hbaseDir, -⟩, -, -, -, hsame⟩ := read_eq_ok_iff.1 h
  have hgiven {parameter : Parameter} {v : String}
      (hv : values.value parameter = some v) :
      ∃ key, (key, v) ∈ entries ∧ Parameter.ofKey? key = some parameter := by
    rcases ParameterValues.value_of_foldlM hvalues hv with hnone | hfound
    · cases parameter <;> cases hnone
    · exact hfound
  exact ⟨hsame, @hgiven .server _ hserver, @hgiven .baseDir _ hbaseDir⟩

theorem toList_context (p : Placement) :
    p.context.toList = [("server", p.server), ("share", p.sharePath)] :=
  rfl

end Placement

namespace Procedure

variable {m : Mounter σ} {host : Host σ} {q : Path} {name : String} {l : Location}

/-- If the directory above is there, making another one takes one attempt. -/
theorem run_createDirectories_child (h : host.tree.makeDirectory host.cwd (q.child name) ≠
      .error .notFound) :
    (createDirectories (q.child name)).run m host =
      (makeDirectory (q.child name) (acceptExisting (q.child name))).run m host := by
  have hreverse : (q.child name).names.reverse = name :: q.names.reverse := by
    simp [Path.child]
  have hchild : (⟨q.anchor, (name :: q.names.reverse).reverse, false⟩ : Path) = q.child name := by
    simp [Path.child]
  rw [← hchild] at h ⊢
  rw [createDirectories, hchild, hreverse, ← hchild]
  exact run_createDirectoriesFrom_of_ne h

theorem run_createDirectories_of_free (h : host.tree.Arrives host.cwd q l) (htakes : q.Takes name)
    (hfree : host.tree.get? (l ++ [name]) = none) :
    ∃ tree, (createDirectories (q.child name)).run m host = ⟨.ok (), { host with tree }, []⟩ ∧
      host.tree.Put tree (l ++ [name]) (some .directory) := by
  obtain ⟨tree, hmade, hput⟩ := h.create_of_free htakes .directory hfree
  change host.tree.makeDirectory host.cwd (q.child name) = .ok tree at hmade
  refine ⟨tree, ?_, hput⟩
  rw [run_createDirectories_child, run_makeDirectory, hmade]
  rw [hmade]
  exact fun heq => by cases heq

/-- A directory that is there already is looked for and found. -/
theorem run_createDirectories_of_there (h : host.tree.Arrives host.cwd q l)
    (hname : Path.isName name = true) (htakes : q.Takes name)
    (hthere : host.tree.get? (l ++ [name]) = some .directory) :
    (createDirectories (q.child name)).run m host = ⟨.ok (), host, []⟩ := by
  have htaken : host.tree.makeDirectory host.cwd (q.child name) = .error .alreadyExists := by
    refine h.create_of_taken htakes .directory ?_
    rw [hthere]
    exact fun heq => by cases heq
  have hfound : host.tree.isDirectory host.cwd (q.child name) = true :=
    (h.child hname htakes hthere).isDirectory htakes.text rfl
  rw [run_createDirectories_child, run_makeDirectory, htaken]
  · dsimp only
    rw [if_pos hfound]
  · rw [htaken]
    exact fun heq => by cases heq

end Procedure

namespace Controller

variable {c : Controller} {m : Mounter σ} {host : Host σ} {request : CreateVolumeRequest}
  {volume : Volume} {p : Placement} {r : VolumeRequest}

/-- A volume is answered only if its directory has been made. -/
theorem made_of_created (hcreated : ((c.serve (.create request)).run m host).answer =
      .ok (some volume)) :
    ∃ p, c.vet request = .ok p ∧ volume = p.toVolume request.requiredBytes ∧
      ∃ (made : Host σ) (tree : Tree),
        made.tree.makeDirectory made.cwd (c.volumePath p) = .ok tree := by
  rw [run_serve] at hcreated
  simp only [screen] at hcreated
  cases hvet : c.vet request with
  | error e =>
    rw [hvet] at hcreated
    cases hcreated
  | ok p =>
    rw [hvet] at hcreated
    dsimp only at hcreated
    rw [onVolume, Procedure.run_whileAttached] at hcreated
    refine ⟨p, rfl, ?_⟩
    dsimp only at hcreated
    generalize (Procedure.createDirectories (c.mountPoint p)).run m host = made at hcreated
    cases hmade : made.answer with
    | error fault =>
      rw [hmade] at hcreated
      cases hcreated
    | ok =>
      rw [hmade] at hcreated
      dsimp only at hcreated
      generalize m.attach (c.mountPoint p) p.server p.baseSharePath made.host = reply at hcreated
      cases hreply : reply.result with
      | error e =>
        rw [hreply] at hcreated
        cases hcreated
      | ok =>
        rw [hreply] at hcreated
        dsimp only at hcreated
        simp only [VolumeRequest.work, Procedure.run, Host.makeDirectory, Host.change]
          at hcreated
        cases hwork : (made.host.after reply).tree.makeDirectory (made.host.after reply).cwd
            (c.volumePath p) with
        | error fault =>
          rw [hwork] at hcreated
          cases hcreated
        | ok tree =>
          rw [hwork] at hcreated
          exact ⟨(Option.some.inj (Except.ok.inj hcreated)).symm, made.host.after reply, tree,
            hwork⟩

theorem describes_of_created
    (hspellings : ∀ parameter a b, request.Gives parameter a → request.Gives parameter b → a = b)
    (hvet : c.vet request = .ok p) :
    Describes c request (p.toVolume request.requiredBytes) p := by
  obtain ⟨hname, hcapabilities, hread⟩ := vet_inv hvet
  obtain ⟨hsame, hserver, hbaseDir⟩ := Placement.given_of_read hread
  have hplain := Placement.plain_of_read hname hread
  have hgives {parameter : Parameter} {v : String}
      (h : ∃ key, (key, v) ∈ request.parameters.toList ∧ Parameter.ofKey? key = some parameter)
      (value : String) : request.Gives parameter value ↔ value = v := by
    obtain ⟨key, hmem, hkey⟩ := h
    have hgiven : request.Gives parameter v :=
      ⟨key, hkey, Std.ExtTreeMap.mem_toList_iff_getElem?_eq_some.1 hmem⟩
    constructor
    · exact fun hvalue => hspellings parameter value v hvalue hgiven
    · rintro rfl
      exact hgiven
  refine ⟨VolumeId.placement_eq_ok_iff.2 (Placement.read_id hplain), hsame, hgives hserver,
    hgives hbaseDir, ⟨p.server, p.sharePath, p.toList_context, ?_⟩, ?_, ?_⟩
  · simp [Placement.toVolume, Placement.text_id, Placement.sharePath, String.append_assoc]
  · show request.requiredBytes = _
    unfold CreateVolumeRequest.requiredBytes
    cases request.capacityRange <;> rfl
  · show c.validateVolumeCapabilities p.id request.capabilities = _
    rw [validateVolumeCapabilities, Placement.read_id hplain]
    simp only [hcapabilities]
    rfl

/-- A request of which every call succeeds and leaves files alone, from the tree that it finds its
mount point in. -/
theorem run_serve_undisturbed (hm : m.KeepsFiles) (hworks : m.NeverFails)
    (hscreen : c.screen r = .ok p) {tree tree' : Tree} {result : Except Fault Unit}
    (hmade : (Procedure.createDirectories (c.mountPoint p)).run m host =
      ⟨.ok (), { host with tree }, []⟩)
    (hwork : ∀ mounts : σ, (r.work (c.volumePath p)).run m ⟨host.cwd, tree, mounts⟩ =
      ⟨result, ⟨host.cwd, tree', mounts⟩, []⟩) :
    let o := (c.serve r).run m host
    o.answer = c.conclusion p r result ∧
      o.host.tree =
        match tree'.removeDirectory host.cwd (c.mountPoint p) with
        | .ok left => left
        | .error _ => tree' := by
  dsimp only
  rw [run_serve, hscreen]
  dsimp only
  rw [onVolume, Procedure.run_whileAttached, hmade]
  dsimp only
  rw [hworks.attach, hm.after_attach, hwork]
  dsimp only
  refine ⟨rfl, ?_⟩
  rw [Procedure.run_release]
  dsimp only
  rw [hworks.detach, hm.after_detach]
  dsimp only [Host.removeDirectory, Host.change]
  cases tree'.removeDirectory host.cwd (c.mountPoint p) with
  | ok left => rfl
  | error fault => rfl

section Restoration

variable {working : Location} (hm : m.KeepsFiles) (hworks : m.NeverFails)
  (harrives : host.tree.Arrives host.cwd c.working working)
  (hfree : host.tree.get? (working ++ [p.name]) = none) (hname : PlainName p.name)
  (hpoint : c.working.Takes p.name) (hvolume : (c.mountPoint p).Takes p.name)
include hm hworks harrives hfree hname hpoint hvolume

/-- Making a volume leaves its mount point with its directory in it. -/
theorem tree_of_created (hscreen : c.screen (.create request) = .ok p) :
    host.tree.Used ((c.serve (.create request)).run m host).host.tree working p.name := by
  obtain ⟨tree, hmade, hput⟩ := Procedure.run_createDirectories_of_free (m := m) harrives hpoint
    hfree
  obtain ⟨tree', hwork, hfull, -, hresult⟩ :=
    harrives.make_inside hname hpoint hvolume hfree hput
  have hrun (mounts : σ) :
      (VolumeRequest.work (.create request) (c.volumePath p)).run m ⟨host.cwd, tree, mounts⟩ =
        ⟨.ok (), ⟨host.cwd, tree', mounts⟩, []⟩ := by
    change tree.makeDirectory host.cwd (c.volumePath p) = .ok tree' at hwork
    simp only [VolumeRequest.work, Procedure.run, Host.makeDirectory, Host.change, hwork]
  obtain ⟨-, htree⟩ := run_serve_undisturbed hm hworks hscreen hmade hrun
  change tree'.removeDirectory host.cwd (c.mountPoint p) = .error .notEmpty at hfull
  intro k _
  rw [htree, hfull]
  exact hresult k

/-- Removing a volume takes away its mount point as well, whatever has been put into the volume. -/
theorem tree_of_deleted {id : VolumeId} (hscreen : c.screen (.delete id) = .ok p) {used : Host σ}
    (hcwd : used.cwd = host.cwd) (hused : host.tree.Used used.tree working p.name) :
    let o := (c.serve (.delete id)).run m used
    o.answer = .ok none ∧ o.host.tree = host.tree := by
  rw [← hcwd] at harrives
  have hused' : used.tree.Arrives used.cwd c.working working :=
    harrives.mono (Tree.within_of_outside hfree fun _ hk => hused.outside hk)
  have hmade := Procedure.run_createDirectories_of_there (m := m) hused' hname.isName hpoint
    hused.point
  obtain ⟨tree', hwork, hleft⟩ := hused.removals_restore harrives hfree hname hpoint hvolume
  have hrun (mounts : σ) :
      (VolumeRequest.work (.delete id) (c.volumePath p)).run m ⟨used.cwd, used.tree, mounts⟩ =
        ⟨.ok (), ⟨used.cwd, tree', mounts⟩, []⟩ := by
    change used.tree.removeAll used.cwd (c.volumePath p) = .ok tree' at hwork
    simp only [VolumeRequest.work, Procedure.run, Host.removeAll, Host.change, hwork]
  obtain ⟨hanswer, htree⟩ := run_serve_undisturbed hm hworks hscreen hmade hrun
  change tree'.removeDirectory used.cwd (c.mountPoint p) = .ok host.tree at hleft
  rw [hleft] at htree
  exact ⟨hanswer, htree⟩

end Restoration

/-- What making a volume made, removing it finds. The id that is answered names exactly the server,
the base directory and the name that were asked for, and the rest of the answer follows from them.
Any later removal under that id, whatever has become of the host, does nothing before it attaches
the export but look for its mount point and make it, attaches the same export at the same mount
point, and then removes the path that was made and no other. If the mounter leaves files alone and
never fails, the working directory was there and the mount point was not, then the volume is made,
and after whatever is done inside it its removal succeeds and gives back the tree from before. -/
theorem delete_finds_what_create_made
    (hspellings : ∀ parameter a b, request.Gives parameter a → request.Gives parameter b → a = b)
    (hcreated : ((c.serve (.create request)).run m host).answer = .ok (some volume)) :
    ∃ p : Placement, Describes c request volume p ∧
      let target := c.working.child p.name
      let path := target.child p.name
      (∃ before visit, (c.serve (.create request)).actions m host = before ++ visit ∧
        (∀ a ∈ before, a.Prepares) ∧
        Visit target p.server ("/" ++ p.baseDir) (.makeDirectory path) true visit) ∧
      (∀ later : Host σ, ∃ before visit,
        (c.serve (.delete volume.id)).actions m later = before ++ visit ∧
        (∀ a ∈ before, a.Prepares) ∧
        (visit = [] ∨ ∃ worked,
          Visit target p.server ("/" ++ p.baseDir) (.removeAll path) worked visit)) ∧
      (m.KeepsFiles → m.NeverFails →
        ∀ working, host.tree.resolve host.cwd c.working = .ok working →
          host.tree.get? working = some .directory →
          host.tree.get? (working ++ [p.name]) = none →
          let made := ((c.serve (.create request)).run m host).host.tree
          made.get? (working ++ [p.name, p.name]) = some .directory ∧
            ∀ used : Host σ, used.cwd = host.cwd →
              (∀ l, (working ++ [p.name, p.name] <+: l → l = working ++ [p.name, p.name]) →
                used.tree.get? l = made.get? l) →
              let o := (c.serve (.delete volume.id)).run m used
              o.answer = .ok none ∧ o.host.tree = host.tree) := by
  obtain ⟨p, hvet, rfl, made, tree, hmade⟩ := made_of_created hcreated
  have hscreen : c.screen (.create request) = .ok p := by
    rw [screen, hvet]
  have hplain := plain_of_screen hscreen
  have hscreen' : c.screen (.delete p.id) = .ok p := by
    have hne : p.id.isEmpty = false := by
      cases hempty : p.id.isEmpty with
      | false => rfl
      | true =>
        have htext : p.id.text = "" := String.isEmpty_iff.1 hempty
        have hlength := congrArg String.length htext
        rw [Placement.text_id] at hlength
        simp at hlength
    rw [screen, hne, Placement.read_id hplain]
    rfl
  refine ⟨p, describes_of_created hspellings hvet, ?_, fun later => ?_, ?_⟩
  · obtain ⟨before, visit, hactions, hprepares, hvisit⟩ := actions_serve m hscreen host
    refine ⟨before, visit, hactions, hprepares, ?_⟩
    rw [hcreated] at hvisit
    rcases hvisit with ⟨-, e, he⟩ | ⟨worked, hvisit, hfailed⟩
    · cases he
    · cases worked with
      | true => exact hvisit
      | false =>
        obtain ⟨e, he⟩ := hfailed rfl
        cases he
  · obtain ⟨before, visit, hactions, hprepares, hvisit⟩ := actions_serve m hscreen' later
    refine ⟨before, visit, hactions, hprepares, ?_⟩
    rcases hvisit with ⟨hnil, -⟩ | ⟨worked, hvisit, -⟩
    · exact .inl hnil
    · exact .inr ⟨worked, hvisit⟩
  · intro hm hworks working hresolve hdirectory hfree
    have hup := hplain.name.ne_up
    obtain ⟨-, -, hvolume, -⟩ := Tree.create_child_inv hmade
    have hpoint : c.working.Takes p.name := hvolume.above hplain.name.nonempty hup hvolume.short
    have harrives := Tree.arrives_of_resolve hresolve hdirectory
    have hused := tree_of_created hm hworks harrives hfree hplain.name hpoint hvolume hscreen
    refine ⟨?_, fun used hcwd hsame => ?_⟩
    · exact (hused _ fun _ => rfl).trans (if_pos (.inr rfl))
    · exact tree_of_deleted hm hworks harrives hfree hplain.name hpoint hvolume hscreen' hcwd
        fun k hk => (hsame k hk).trans (hused k hk)

namespace Sample

/-- The sample request gives no parameter twice. -/
theorem spellings_of_request (parameter : Parameter) (a b : String)
    (ha : Sample.request.Gives parameter a) (hb : Sample.request.Gives parameter b) : a = b := by
  have hentries :
      Sample.request.parameters.toList = [("base-dir", "base"), ("server", "s1")] := by
    decide +kernel
  have hvalue (value : String) (h : Sample.request.Gives parameter value) :
      value = if parameter = .server then "s1" else "base" := by
    obtain ⟨key, hkey, hgiven⟩ := h
    have hmem := Std.ExtTreeMap.mem_toList_iff_getElem?_eq_some.2 hgiven
    rw [hentries] at hmem
    simp only [List.mem_cons, Prod.mk.injEq, List.not_mem_nil, or_false] at hmem
    rcases hmem with ⟨rfl, rfl⟩ | ⟨rfl, rfl⟩
    · have hbase : Parameter.ofKey? "base-dir" = some .baseDir := by decide
      obtain rfl := Option.some.inj (hbase.symm.trans hkey)
      rfl
    · have hserver : Parameter.ofKey? "server" = some .server := by decide
      obtain rfl := Option.some.inj (hserver.symm.trans hkey)
      rfl
  rw [hvalue a ha, hvalue b hb]

/-- The directory `/work` and nothing else. -/
def ready : Host Unit :=
  ⟨[], withDirectory .bare ["work"], ()⟩

/-- A volume made below `/work`, with a file put into it, and removed. -/
theorem delete_restores_working_directory :
    let made := (controller.serve (.create Sample.request)).run .inert ready
    made.answer = .ok (some (Placement.toVolume ⟨"s1", "base", "vol1"⟩ 0)) ∧
      ∃ directory free,
        let used := made.host.tree.add ["work", "vol1", "vol1"] "data" (.file "here") directory free
        let o := (controller.serve (.delete ⟨"s1/base/vol1"⟩)).run .inert ⟨[], used, ()⟩
        o.answer = .ok none ∧ o.host.tree = ready.tree := by
  have hresolve : ready.tree.resolve ready.cwd controller.working = .ok ["work"] := by
    rfl
  have hdirectory : ready.tree.get? ["work"] = some .directory := by decide +kernel
  have hfree : ready.tree.get? ["work", "vol1"] = none := by decide +kernel
  have hplacement : (Placement.toVolume ⟨"s1", "base", "vol1"⟩ 0).id.placement =
      .ok ⟨"s1", "base", "vol1"⟩ := by
    rfl
  have hid : (Placement.toVolume ⟨"s1", "base", "vol1"⟩ 0).id = ⟨"s1/base/vol1"⟩ := by
    decide +kernel
  -- For any request, so that nothing is evaluated before its time.
  have hrestores (request : CreateVolumeRequest)
      (hspellings : ∀ parameter a b,
        request.Gives parameter a → request.Gives parameter b → a = b)
      (hcreated : ((controller.serve (.create request)).run .inert ready).answer =
        .ok (some (Placement.toVolume ⟨"s1", "base", "vol1"⟩ 0)))
      (hnone : ((controller.serve (.create request)).run .inert ready).host.tree.get?
        ["work", "vol1", "vol1", "data"] = none) :
      ∃ directory free,
        let used := ((controller.serve (.create request)).run .inert ready).host.tree.add
          ["work", "vol1", "vol1"] "data" (.file "here") directory free
        let o := (controller.serve (.delete ⟨"s1/base/vol1"⟩)).run .inert ⟨[], used, ()⟩
        o.answer = .ok none ∧ o.host.tree = ready.tree := by
    obtain ⟨p, hdescribes, -, -, hrestores⟩ := delete_finds_what_create_made hspellings hcreated
    obtain rfl := Except.ok.inj (hdescribes.placement.symm.trans hplacement)
    obtain ⟨hmade, hused⟩ := hrestores Mounter.keepsFiles_inert Mounter.neverFails_inert ["work"]
      hresolve hdirectory hfree
    rw [hid] at hused
    refine ⟨hmade, hnone, hused ⟨[], _, ()⟩ rfl fun l hl => ?_⟩
    rw [Tree.get?_add, if_neg]
    rintro rfl
    have hlength := congrArg List.length (hl ⟨["data"], rfl⟩)
    simp at hlength
  have hanswer : ((controller.serve (.create Sample.request)).run .inert ready).answer.toOption =
      some (some (Placement.toVolume ⟨"s1", "base", "vol1"⟩ 0)) := by
    decide +kernel
  have hcreated : ((controller.serve (.create Sample.request)).run .inert ready).answer =
      .ok (some (Placement.toVolume ⟨"s1", "base", "vol1"⟩ 0)) := by
    generalize ((controller.serve (.create Sample.request)).run .inert ready).answer = answer
      at hanswer
    cases answer with
    | error e => cases hanswer
    | ok v => exact congrArg Except.ok (Option.some.inj hanswer)
  exact ⟨hcreated, hrestores Sample.request spellings_of_request hcreated (by decide +kernel)⟩

end Sample

end Controller
end NfsProvisioner
