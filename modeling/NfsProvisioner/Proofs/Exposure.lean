import NfsProvisioner.Proofs.Upkeep

/-!
# Attaching and detaching on an orderly host

What the mounter does to an orderly host. Attaching may fail half-way, and what has been done by
then is not undone, but the host stays orderly and no volume changes. Detaching always succeeds.
-/
namespace NfsProvisioner.Exports

variable {exports : Exports} {working : Path} {host : Host (List Attachment)} {p q : Placement}

namespace Orderly

variable (hapart : exports.Apart working host.cwd)
include hapart

theorem start_vault (p : Placement) (t : Tree) :
    t.get? ((exports.vault p).start host.cwd) = some .directory := by
  have hstart : (exports.vault p).start host.cwd = [] := by
    have hrooted := hapart.home_rooted
    unfold vault Path.child Path.start
    cases hanchor : exports.home.anchor with
    | here => exact absurd hanchor hrooted
    | root => rfl
    | doubleRoot => rfl
  rw [hstart]
  exact t.get?_nil

theorem normal_server (hp : p.Plain) : (exports.home.child p.server).Normal :=
  hapart.home_normal.child hp.server.isName

theorem normal_vault (hp : p.Plain) : (exports.vault p).Normal :=
  (normal_server hapart hp).child hp.baseDir.isName

theorem normal_target (hp : p.Plain) : (working.child p.name).Normal :=
  hapart.working_normal.child hp.name.isName

omit hapart in
theorem mem_way_vault (hp : p.Plain) {cwd l : Location} :
    l ∈ (exports.vault p).way cwd ↔
      l ∈ exports.home.way cwd ∨ l = exports.home.location cwd ++ [p.server] ∨
        l = exports.home.location cwd ++ [p.server, p.baseDir] := by
  unfold vault
  rw [Path.mem_way_child hp.baseDir.ne_up, Path.mem_way_child hp.server.ne_up,
    Path.location_child hp.server.ne_up, List.append_assoc, or_assoc]
  rfl

omit hapart in
theorem clear_target (h : exports.Orderly working host) (hp : p.Plain) :
    host.tree.Clear host.cwd (working.child p.name) := by
  intro l hl
  rcases (Path.mem_way_child hp.name.ne_up).1 hl with hl | rfl
  · exact h.way l hl
  · exact h.points p.name

omit hapart in
theorem clear_vault (h : exports.Orderly working host) (hp : p.Plain) :
    host.tree.Clear host.cwd (exports.vault p) := by
  intro l hl
  rcases (mem_way_vault hp).1 hl with hl | rfl | rfl
  · exact h.home l hl
  · exact h.servers p.server
  · exact h.vaults p.server p.baseDir

/-- No mount point is on the way to a vault. -/
theorem ne_point_of_mem_way_vault (hp : p.Plain) {l : Location}
    (hl : l ∈ (exports.vault p).way host.cwd) (r : Location) :
    l ≠ working.location host.cwd ++ r := by
  rintro rfl
  rcases (mem_way_vault hp).1 hl with hl | heq | heq
  · have hup := Path.prefix_of_mem_way hapart.home_down hl
    exact hapart.home_outside ((List.prefix_append _ r).trans hup)
  · exact hapart.ne _ _ heq
  · exact hapart.ne _ _ heq

/-- No volume is on the way to a mount point or above one. -/
theorem not_backing_of_mem_way_target (h : exports.Orderly working host) (hp : p.Plain)
    {l : Location} (hl : l ∈ (working.child p.name).way host.cwd) :
    ¬ exports.backing host q <+: l := by
  rcases (Path.mem_way_child hp.name.ne_up).1 hl with hl | rfl
  · exact h.not_backing_of_mem_way hapart hl
  · exact h.not_backing_point hapart p.name

/-- The directories that lead to a mount point are made. -/
theorem grows_target (h : exports.Orderly working host) (hp : p.Plain) {t' : Tree}
    (hgrows : host.tree.Grows t' ((working.child p.name).way host.cwd)) :
    exports.Orderly working { host with tree := t' } ∧
      exports.SameVolumes host { host with tree := t' } ∧
      exports.Aside working p.name host { host with tree := t' } := by
  rw [← and_assoc]
  refine ⟨?_, rfl, fun l hway _ hpoint _ => hgrows.outside fun hl => ?_⟩
  rotate_left
  · rcases (Path.mem_way_child hp.name.ne_up).1 hl with hl | rfl
    · exact hway hl
    · exact hpoint (List.prefix_refl _)
  apply h.grows hapart hgrows
  · exact fun q l hl => h.not_backing_of_mem_way_target hapart hp hl
  · intro q _ hmem
    rcases (Path.mem_way_child hp.name.ne_up).1 hmem with hl | heq
    · exact hapart.way_outside _ hl (List.prefix_append _ _)
    · exact hapart.ne _ _ heq.symm

/-- The directories that lead to a vault are made. -/
theorem grows_vault (h : exports.Orderly working host) (hp : p.Plain)
    (hvault : ∀ a ∈ host.mounts, a.directory ≠ exports.vault p) {t' : Tree}
    (hgrows : host.tree.Grows t' ((exports.vault p).way host.cwd)) :
    exports.Orderly working { host with tree := t' } ∧
      exports.SameVolumes host { host with tree := t' } ∧
      exports.Aside working p.name host { host with tree := t' } := by
  rw [← and_assoc]
  refine ⟨?_, rfl, fun l _ hhome _ hin => hgrows.outside fun hl => ?_⟩
  rotate_left
  · rcases (mem_way_vault hp).1 hl with hl | rfl | rfl
    · exact hhome hl
    · exact hin (List.prefix_append _ _)
    · exact hin (List.prefix_append _ _)
  apply h.grows hapart hgrows
  · intro q l hl
    rcases (mem_way_vault hp).1 hl with hl | rfl | rfl
    · exact h.not_backing_of_mem_home hapart hl
    · exact h.not_backing_home hapart (s := [p.server]) (Nat.le_succ 1)
    · exact h.not_backing_home hapart (s := [p.server, p.baseDir]) (Nat.le_refl 2)
  · intro q hq hmem
    rcases (mem_way_vault hp).1 hmem with hl | heq | heq
    · have hlength := (Path.prefix_of_mem_way hapart.home_down hl).length_le
      simp only [List.length_append, List.length_cons, List.length_nil] at hlength
      omega
    · have hlength := congrArg List.length heq
      simp at hlength
    · have hlist := List.append_cancel_left heq
      simp only [List.cons.injEq, and_true] at hlist
      exact hvault _ hq (vault_congr hlist.1 hlist.2)

/-- Moving an export to a mount point, as far as it gets. -/
theorem expose_spec (h : exports.Orderly working host) (hp : p.Plain)
    (htarget : ∀ a ∈ host.mounts, a.target ≠ working.child p.name)
    (hvault : ∀ a ∈ host.mounts, a.directory ≠ exports.vault p) :
    match expose host (working.child p.name) (exports.vault p) with
    | (.error _, tree) =>
      exports.Orderly working { host with tree } ∧ exports.SameVolumes host { host with tree } ∧
        exports.Aside working p.name host { host with tree }
    | (.ok (), tree) =>
      let host' : Host (List Attachment) :=
        ⟨host.cwd, tree, host.mounts ++ [exports.attachment working p]⟩
      exports.Orderly working host' ∧ exports.SameVolumes host host' ∧
        exports.Aside working p.name host host' ∧
        tree.Passable host.cwd (working.child p.name) := by
  unfold expose
  dsimp only
  obtain ⟨-, hmade⟩ := @Procedure.createDirectories_makesWay _ Mounter.inert (exports.vault p) host
    (normal_vault hapart hp) rfl (h.clear_vault hp).unlinked
  have hstart := start_vault hapart p host.tree
  -- Directories that lead to the vault.
  generalize (Procedure.createDirectories (exports.vault p)).run Mounter.inert host = made
    at hmade ⊢
  obtain ⟨hmadeOrderly, hmadeSame, hmadeAside⟩ := h.grows_vault hapart hp hvault hmade.grows
  cases hanswer : made.answer with
  | error fault => exact ⟨hmadeOrderly, hmadeSame, hmadeAside⟩
  | ok =>
  have hvaultPass := hmade.passable hstart hanswer
  have hthere := hvaultPass _ Path.location_mem_way
  rw [location_vault hp] at hthere
  -- The mount point makes way.
  dsimp only
  cases hcleared : made.host.tree.removeDirectory host.cwd (working.child p.name) with
  | error fault => exact ⟨hmadeOrderly, hmadeSame, hmadeAside⟩
  | ok cleared =>
    obtain ⟨-, -, hpass, -, -, hput⟩ :=
      Tree.removeDirectory_child_ok hapart.working_normal hmadeOrderly.way.unlinked hcleared
    obtain ⟨hclearedOrderly, hclearedSame, hclearedAside⟩ :=
      hmadeOrderly.remove_point (by exact hapart) hput
    have hfree : cleared.get? (working.location host.cwd ++ [p.name]) = none :=
      (hput _).trans (if_pos rfl)
    dsimp only
    cases hmoved : cleared.rename host.cwd (exports.vault p) (working.child p.name) with
    | error fault =>
      exact ⟨hclearedOrderly, hmadeSame.trans hclearedSame, hmadeAside.trans hclearedAside⟩
    | ok moved =>
      have hclearServer : cleared.Clear host.cwd (exports.home.child p.server) :=
        (hclearedOrderly.clear_vault hp).of_child
      obtain ⟨husable', husable, -, hpass', hmove⟩ := Tree.rename_child_ok (normal_server hapart hp)
        hapart.working_normal hclearServer.unlinked hclearedOrderly.way.unlinked hfree hmoved
      rw [location_server hp] at hmove
      have hthere' : cleared.get? (exports.home.location host.cwd ++ [p.server, p.baseDir]) =
          some .directory := by
        rw [hput, if_neg]
        · exact hthere
        · exact (hapart.ne _ _).symm
      obtain ⟨horderly, hsame, haside⟩ := hclearedOrderly.attach (by exact hapart) hp htarget
        hvault husable husable' hpass' hfree hthere' hmove
      refine ⟨horderly, (hmadeSame.trans hclearedSame).trans hsame,
        (hmadeAside.trans hclearedAside).trans haside,
        (Tree.passable_child_iff hp.name.ne_up).2 ⟨fun l hl => ?_, ?_⟩⟩
      · have hmem : exports.attachment working p ∈
            host.mounts ++ [exports.attachment working p] :=
          List.mem_append_right _ (List.mem_singleton_self _)
        rw [hmove.elsewhere]
        · exact hpass' l hl
        · intro hin
          exact hapart.way_outside l hl ((List.prefix_append _ _).trans hin)
        · exact (horderly.holds hmem).way_outside l hl
      · have hself := hmove.at_target []
        rw [List.append_nil, List.append_nil, hthere'] at hself
        exact hself

/-- An export is moved to an empty mount point that the way to it does not lead through. -/
theorem expose_ok (h : exports.Orderly working host) (hp : p.Plain)
    (husable : (working.child p.name).Usable) (husable' : (exports.vault p).Usable)
    (hpass : host.tree.Passable host.cwd (working.child p.name))
    (hbare : ∀ r, r ≠ [] → host.tree.get? (working.location host.cwd ++ [p.name] ++ r) = none)
    (hway : ∀ l ∈ working.way host.cwd, ¬ working.location host.cwd ++ [p.name] <+: l)
    (hvault : ∀ a ∈ host.mounts, a.directory ≠ exports.vault p) :
    (expose host (working.child p.name) (exports.vault p)).1 = .ok () := by
  unfold expose
  dsimp only
  obtain ⟨-, hmade⟩ := @Procedure.createDirectories_makesWay _ Mounter.inert (exports.vault p) host
    (normal_vault hapart hp) rfl (h.clear_vault hp).unlinked
  have hstart := start_vault hapart p host.tree
  generalize (Procedure.createDirectories (exports.vault p)).run Mounter.inert host = made
    at hmade ⊢
  have hmadeOrderly := (h.grows_vault hapart hp hvault hmade.grows).1
  have hanswer := hmade.made hstart (h.clear_vault hp) fun _ => husable'
  have hvaultPass := hmade.passable hstart hanswer
  -- The mount point is as empty as it was.
  have hpass' := hmade.grows.passable hpass
  have hpassWorking := ((Tree.passable_child_iff hp.name.ne_up).1 hpass').1
  have hbare' : ∀ r, r ≠ [] →
      made.host.tree.get? (working.location host.cwd ++ [p.name] ++ r) = none := by
    intro r hr
    rw [hmade.grows.outside fun hl => ?_]
    · exact hbare r hr
    · rw [List.append_assoc] at hl
      exact ne_point_of_mem_way_vault hapart hp hl _ rfl
  obtain ⟨cleared, hcleared, -⟩ := Tree.removeDirectory_child_of_bare hapart.working_normal
    hp.name.ne_up husable hpass' hbare'
  have hput := (Tree.removeDirectory_child_ok hapart.working_normal hmadeOrderly.way.unlinked
    hcleared).2.2.2.2.2
  have hpassCleared : cleared.Passable host.cwd working := by
    intro l hl
    rw [hput, if_neg]
    · exact hpassWorking l hl
    · rintro rfl
      exact hway _ hl (List.prefix_refl _)
  have hpassVault : cleared.Passable host.cwd (exports.vault p) := by
    intro l hl
    rw [hput, if_neg (ne_point_of_mem_way_vault hapart hp hl _)]
    exact hvaultPass l hl
  have hthere := hpassVault _ Path.location_mem_way
  rw [location_vault hp] at hthere
  obtain ⟨moved, hmoved⟩ := Tree.rename_child_of_free (normal_server hapart hp)
    hapart.working_normal hp.baseDir.ne_up hp.name.ne_up husable' husable
    ((Tree.passable_child_iff hp.baseDir.ne_up).1 hpassVault).1 hpassCleared
    (by rw [location_server hp]; exact fun hnone => by rw [hnone] at hthere; cases hthere)
    ((hput _).trans (if_pos rfl))
    (by rw [location_server hp]; exact hapart.home_not_above _ _)
  rw [hanswer]
  dsimp only
  rw [hcleared]
  dsimp only
  have hmoved' : cleared.rename host.cwd (exports.vault p) (working.child p.name) = .ok moved :=
    hmoved
  rw [hmoved']

/-- Attaching an export. It works if something is attached at the mount point already. -/
theorem attach_spec (h : exports.Orderly working host) (hp : p.Plain)
    (hpass : host.tree.Passable host.cwd (working.child p.name)) :
    let reply := exports.attach (working.child p.name) p.server p.baseSharePath host
    let host' := host.after reply
    exports.Orderly working host' ∧ exports.SameVolumes host host' ∧
      exports.Aside working p.name host host' ∧
      (∀ e, reply.result = .error e → host'.mounts = host.mounts) ∧
      (reply.result = .ok () → host'.tree.Passable host.cwd (working.child p.name) ∧
        ∃ q, q.name = p.name ∧ exports.attachment working q ∈ host'.mounts ∧
          (exports.attachment working q ∈ host.mounts ∧ host' = host ∨
            q = p ∧ host'.mounts = host.mounts ++ [exports.attachment working p] ∧
              ∀ a ∈ host.mounts, a.target ≠ working.child p.name)) := by
  intro reply host'
  have hreply : reply = exports.attach (working.child p.name) p.server p.baseSharePath host := rfl
  unfold Exports.attach at hreply
  rw [directory_eq_vault hp] at hreply
  dsimp only at hreply
  by_cases htarget : host.mounts.any (·.target == working.child p.name) = true
  · rw [if_pos htarget] at hreply
    have hhost : host' = host := by
      simp only [host', hreply, Host.after]
    obtain ⟨a, ha, hat⟩ := List.any_eq_true.1 htarget
    obtain ⟨q, rfl, -⟩ := h.attached a ha
    have hnames := congrArg Path.names (beq_iff_eq.1 hat)
    simp only [attachment, Path.child, List.append_cancel_left_eq, List.cons.injEq, and_true]
      at hnames
    rw [hhost]
    exact ⟨h, .refl, .refl, fun _ _ => rfl, fun _ => ⟨hpass, q, hnames, ha, .inl ⟨ha, rfl⟩⟩⟩
  · rw [if_neg htarget] at hreply
    have htarget' : ∀ a ∈ host.mounts, a.target ≠ working.child p.name := by
      intro a ha hat
      exact htarget (List.any_eq_true.2 ⟨a, ha, beq_iff_eq.2 hat⟩)
    by_cases hbusy : host.mounts.any (·.directory == exports.vault p) = true
    · rw [if_pos hbusy] at hreply
      have hhost : host' = host := by
        simp only [host', hreply, Host.after]
      have hresult : reply.result ≠ .ok () := by
        rw [hreply]
        exact fun h => by cases h
      rw [hhost]
      exact ⟨h, .refl, .refl, fun _ _ => rfl, fun hok => absurd hok hresult⟩
    · rw [if_neg hbusy] at hreply
      have hvault : ∀ a ∈ host.mounts, a.directory ≠ exports.vault p := by
        intro a ha hat
        exact hbusy (List.any_eq_true.2 ⟨a, ha, beq_iff_eq.2 hat⟩)
      have hexpose := h.expose_spec hapart hp htarget' hvault
      generalize expose host (working.child p.name) (exports.vault p) = exposed at hexpose hreply
      obtain ⟨result, tree⟩ := exposed
      cases result with
      | error fault =>
        have hhost : host' = { host with tree } := by
          simp only [host', hreply, Host.after]
        have hresult : reply.result ≠ .ok () := by
          rw [hreply]
          exact fun h => by cases h
        rw [hhost]
        exact ⟨hexpose.1, hexpose.2.1, hexpose.2.2, fun _ _ => rfl, fun hok => absurd hok hresult⟩
      | ok =>
        have hhost : host' =
            ⟨host.cwd, tree, host.mounts ++ [exports.attachment working p]⟩ := by
          simp only [host', hreply, Host.after]
          rfl
        have hresult : ∀ e, reply.result ≠ .error e := by
          intro e
          rw [hreply]
          exact fun h => by cases h
        obtain ⟨horderly, hsame, haside, hpass'⟩ := hexpose
        rw [hhost]
        refine ⟨horderly, hsame, haside, fun e he => absurd he (hresult e),
          fun _ => ⟨hpass', p, rfl, ?_⟩⟩
        exact ⟨List.mem_append_right _ (List.mem_singleton_self _), .inr ⟨rfl, rfl, htarget'⟩⟩

omit hapart in
/-- The way to a server's directory is there if the directory is. -/
theorem passable_server {cwd : Location} {t : Tree} (hdown : ".." ∉ exports.home.names)
    (hp : p.Plain)
    (hserver : t.get? (exports.home.location cwd ++ [p.server]) = some .directory) :
    t.Passable cwd (exports.home.child p.server) := by
  refine (Tree.passable_child_iff hp.server.ne_up).2 ⟨fun l hl => ?_, hserver⟩
  obtain ⟨r, hr⟩ := Path.prefix_of_mem_way hdown hl
  rw [← hr, List.append_assoc] at hserver
  exact Tree.get?_of_append (by simp) hserver

/-- Moving an export back from the mount point of a volume. -/
theorem putBack_spec (h : exports.Orderly working host)
    (hmem : exports.attachment working p ∈ host.mounts)
    (hpass : host.tree.Passable host.cwd (working.child p.name)) :
    ∃ moved, host.tree.Moved moved (working.location host.cwd ++ [p.name])
        (exports.home.location host.cwd ++ [p.server, p.baseDir]) ∧
      moved.Passable host.cwd working ∧
      moved.Put (putBack host (exports.attachment working p))
        (working.location host.cwd ++ [p.name]) (some .directory) := by
  have hp := h.holds hmem
  obtain ⟨hpassWorking, hthere⟩ := (Tree.passable_child_iff hp.plain.name.ne_up).1 hpass
  have hpassServer := passable_server hapart.home_down hp.plain hp.server
  have haway := hp.away
  rw [← location_server hp.plain] at haway ⊢
  -- The export is moved back to its vault.
  obtain ⟨moved, hrename⟩ := Tree.rename_child_of_free hapart.working_normal
    (normal_server hapart hp.plain) hp.plain.name.ne_up hp.plain.baseDir.ne_up hp.target_usable
    hp.vault_usable hpassWorking hpassServer (by rw [hthere]; exact Option.some_ne_none _) haway
    (by rw [location_server hp.plain]; exact hapart.point_not_above _ _)
  have hmove := (Tree.rename_child_ok hapart.working_normal (normal_server hapart hp.plain)
    hpassWorking.unlinked hpassServer.unlinked haway hrename).2.2.2.2
  have hpassMoved : moved.Passable host.cwd working := by
    intro l hl
    rw [hmove.elsewhere l (hp.way_outside l hl)]
    · exact hpassWorking l hl
    · rw [location_server hp.plain]
      exact fun hin => hapart.way_outside l hl ((List.prefix_append _ _).trans hin)
  have hfree : moved.get? (working.location host.cwd ++ [p.name]) = none := by
    apply hmove.at_source _ (List.prefix_refl _)
    rw [location_server hp.plain]
    exact hapart.home_not_above _ _
  -- An empty directory takes its place.
  obtain ⟨tree, hmake, hput⟩ := Tree.create_child_of_free .directory hapart.working_normal
    hp.plain.name.ne_up hp.target_usable hpassMoved hfree
  have hback : putBack host (exports.attachment working p) = tree := by
    have hrename' : host.tree.rename host.cwd (exports.attachment working p).target
        (exports.attachment working p).directory = .ok moved := hrename
    have hmake' : moved.makeDirectory host.cwd (exports.attachment working p).target =
        .ok tree := hmake
    rw [putBack, hrename']
    dsimp only
    rw [hmake']
  rw [hback]
  exact ⟨moved, hmove, hpassMoved, hput⟩

omit hapart in
theorem find?_target (h : exports.Orderly working host)
    (hmem : exports.attachment working p ∈ host.mounts) :
    host.mounts.find? (·.target == working.child p.name) =
      some (exports.attachment working p) := by
  cases hfind : host.mounts.find? (·.target == working.child p.name) with
  | none => exact absurd (beq_iff_eq.2 rfl) (List.find?_eq_none.1 hfind _ hmem)
  | some a =>
    have htarget : a.target = working.child p.name := by simpa using List.find?_some hfind
    rw [h.distinct a (List.mem_of_find?_eq_some hfind) _ hmem (.inl htarget)]

/-- Detaching what is attached at the mount point of a volume. -/
theorem detach_spec (h : exports.Orderly working host)
    (hmem : exports.attachment working p ∈ host.mounts)
    (hpass : host.tree.Passable host.cwd (working.child p.name)) :
    let reply := detach (working.child p.name) host
    let host' := host.after reply
    reply.result = .ok () ∧ exports.Orderly working host' ∧ exports.SameVolumes host host' ∧
      exports.Aside working p.name host host' ∧
      host'.mounts = host.mounts.filter (·.target != working.child p.name) ∧
      host'.tree.Passable host.cwd (working.child p.name) ∧
      ∀ r, r ≠ [] → host'.tree.get? (working.location host.cwd ++ [p.name] ++ r) = none := by
  intro reply host'
  have hp := h.holds hmem
  have hthere := ((Tree.passable_child_iff hp.plain.name.ne_up).1 hpass).2
  obtain ⟨moved, hmove, hpassMoved, hput⟩ := h.putBack_spec hapart hmem hpass
  obtain ⟨horderly, hsame, haside⟩ := h.put_back hapart hmem hthere hmove hput
  have hreply : reply = ⟨.ok (), putBack host (exports.attachment working p),
      host.mounts.filter (·.target != working.child p.name), []⟩ := by
    show detach (working.child p.name) host = _
    rw [detach, h.find?_target hmem]
  have hhost : host' = ⟨host.cwd, putBack host (exports.attachment working p),
      host.mounts.filter (·.target != working.child p.name)⟩ := by
    simp only [host', hreply, Host.after]
  rw [hhost]
  refine ⟨by rw [hreply], horderly, hsame, haside, rfl,
    (Tree.passable_child_iff hp.plain.name.ne_up).2 ⟨fun l hl => ?_, ?_⟩, fun r hr => ?_⟩
  · rw [hput, if_neg]
    · exact hpassMoved l hl
    · rintro rfl
      exact hp.way_outside _ hl (List.prefix_refl _)
  · exact (hput _).trans (if_pos rfl)
  · -- Below the mount point nothing is left, since all of it has been moved.
    refine (hput _).trans ((if_neg ?_).trans (hmove.at_source _ (List.prefix_append _ r) ?_))
    · exact fun heq => hr (List.append_right_eq_self.1 heq)
    · rw [List.append_assoc]
      exact hapart.home_not_above _ _

end Orderly
end NfsProvisioner.Exports
