import NfsProvisioner.Proofs.Sites

/-!
# Changes that keep a host orderly

Each kind of change that a request makes to the files: directories made on the way, a mount point
removed, something done inside one volume, an export moved to a mount point and back. All of them
keep the host orderly. All but the work inside a volume leave every volume with what it holds.
-/
namespace NfsProvisioner.Exports

/-- Every volume holds what it held before, wherever it stands now. -/
def SameVolumes (exports : Exports) (host host' : Host (List Attachment)) : Prop :=
  ∀ p r, host'.tree.get? (exports.backing host' p ++ r) =
    host.tree.get? (exports.backing host p ++ r)

/-- Nothing changes but at and below a mount point, at and below the home of the exports, and on the
ways to them. -/
def Aside (exports : Exports) (working : Path) (name : String)
    (host host' : Host (List Attachment)) : Prop :=
  host'.cwd = host.cwd ∧ ∀ l, l ∉ working.way host.cwd → l ∉ exports.home.way host.cwd →
    ¬ working.location host.cwd ++ [name] <+: l → ¬ exports.home.location host.cwd <+: l →
    host'.tree.get? l = host.tree.get? l

variable {exports : Exports} {working : Path} {host host' host'' : Host (List Attachment)}
  {p q : Placement} {t' : Tree} {name : String}

theorem SameVolumes.refl : exports.SameVolumes host host :=
  fun _ _ => rfl

theorem SameVolumes.trans (h : exports.SameVolumes host host')
    (h' : exports.SameVolumes host' host'') : exports.SameVolumes host host'' :=
  fun p r => (h' p r).trans (h p r)

theorem Aside.refl : exports.Aside working name host host :=
  ⟨rfl, fun _ _ _ _ _ => rfl⟩

theorem Aside.trans (h : exports.Aside working name host host')
    (h' : exports.Aside working name host' host'') : exports.Aside working name host host'' := by
  obtain ⟨hcwd, hkept⟩ := h
  obtain ⟨hcwd', hkept'⟩ := h'
  rw [hcwd] at hcwd' hkept'
  exact ⟨hcwd', fun l hway hhome hpoint hin =>
    (hkept' l hway hhome hpoint hin).trans (hkept l hway hhome hpoint hin)⟩

namespace Orderly

variable (hapart : exports.Apart working host.cwd)
include hapart

/-- What a change of files alone has to leave as it is. -/
theorem with_tree (h : exports.Orderly working host)
    (hopen : ∀ l, (∀ p r, r ≠ [] → l ≠ exports.backing host p ++ r) → host.tree.Open l → t'.Open l)
    (hstart : t'.get? (working.start host.cwd) = some .directory)
    (hserver : ∀ p, exports.attachment working p ∈ host.mounts →
      t'.get? (exports.home.location host.cwd ++ [p.server]) = some .directory)
    (haway : ∀ p, exports.attachment working p ∈ host.mounts →
      t'.get? (exports.home.location host.cwd ++ [p.server, p.baseDir]) = none) :
    exports.Orderly working { host with tree := t' } where
  start := hstart
  way l hl := by
    refine hopen l (fun p r _ heq => ?_) (h.way l hl)
    exact h.not_backing_of_mem_way hapart hl (heq ▸ List.prefix_append _ r)
  points name := by
    refine hopen _ (fun p r _ heq => ?_) (h.points name)
    exact h.not_backing_point hapart name (heq ▸ List.prefix_append _ r)
  home l hl := by
    refine hopen l (fun p r _ heq => ?_) (h.home l hl)
    exact h.not_backing_of_mem_home hapart hl (heq ▸ List.prefix_append _ r)
  servers server := by
    refine hopen _ (fun p r _ heq => ?_) (h.servers server)
    exact h.not_backing_home hapart (s := [server]) (Nat.le_succ 1)
      (heq ▸ List.prefix_append _ r)
  vaults server baseDir := by
    refine hopen _ (fun p r _ heq => ?_) (h.vaults server baseDir)
    exact h.not_backing_home hapart (s := [server, baseDir]) (Nat.le_refl 2)
      (heq ▸ List.prefix_append _ r)
  volumes p := by
    refine hopen _ (fun q r hr heq => ?_) (h.volumes p)
    have hself : exports.backing host p ++ [] = exports.backing host q ++ r := by
      rw [List.append_nil]
      exact heq
    exact hr (h.backing_inj hapart hself).2.symm
  attached a ha := by
    obtain ⟨p, rfl, hp⟩ := h.attached a ha
    exact ⟨p, rfl, hp.plain, hp.target_usable, hp.vault_usable, hp.way_outside,
      hserver p ha, haway p ha⟩
  distinct := h.distinct

/-- Missing directories are made outside the volumes. -/
theorem grows (h : exports.Orderly working host) {places : List Location}
    (hgrows : host.tree.Grows t' places)
    (houtside : ∀ p, ∀ l ∈ places, ¬ exports.backing host p <+: l)
    (haway : ∀ p, exports.attachment working p ∈ host.mounts →
      exports.home.location host.cwd ++ [p.server, p.baseDir] ∉ places) :
    exports.Orderly working { host with tree := t' } ∧
      exports.SameVolumes host { host with tree := t' } := by
  constructor
  · apply h.with_tree hapart
    · intro l _ hl
      exact (hgrows.grownAt _).open_iff.2 hl
    · exact (hgrows.grownAt _).directory h.start
    · intro p hp
      exact (hgrows.grownAt _).directory (h.holds hp).server
    · intro p hp
      rw [hgrows.outside (haway p hp)]
      exact (h.holds hp).away
  · intro p r
    exact hgrows.outside fun hmem => houtside p _ hmem (List.prefix_append _ r)

/-- A mount point is removed. -/
theorem remove_point (h : exports.Orderly working host)
    (hput : host.tree.Put t' (working.location host.cwd ++ [name]) none) :
    exports.Orderly working { host with tree := t' } ∧
      exports.SameVolumes host { host with tree := t' } ∧
      exports.Aside working name host { host with tree := t' } := by
  have hother : ∀ s, t'.get? (exports.home.location host.cwd ++ s) =
      host.tree.get? (exports.home.location host.cwd ++ s) := by
    intro s
    rw [hput, if_neg]
    exact (hapart.ne _ _).symm
  refine ⟨?_, ?_, rfl, fun l _ _ hpoint _ => (hput l).trans (if_neg ?_)⟩
  · apply h.with_tree hapart
    · intro l _ hl
      unfold Tree.Open
      rw [hput l]
      split
      · exact .inl rfl
      · exact hl
    · rw [hput, if_neg (hapart.start_outside name)]
      exact h.start
    · intro p hp
      rw [hother]
      exact (h.holds hp).server
    · intro p hp
      rw [hother]
      exact (h.holds hp).away
  · intro p r
    refine (hput _).trans (if_neg fun heq => ?_)
    exact h.not_backing_point hapart name (heq ▸ List.prefix_append _ r)
  · rintro rfl
    exact hpoint (List.prefix_refl _)

/-- Something is done to one volume and to what is inside it. -/
theorem inside (h : exports.Orderly working host) (q : Placement)
    (hsame : ∀ l, ¬ exports.backing host q <+: l → t'.get? l = host.tree.get? l)
    (hq : t'.Open (exports.backing host q)) :
    exports.Orderly working { host with tree := t' } ∧
      ∀ p, p ≠ q → ∀ r, t'.get? (exports.backing host p ++ r) =
        host.tree.get? (exports.backing host p ++ r) := by
  constructor
  · apply h.with_tree hapart
    · intro l hl hopen
      by_cases hin : exports.backing host q <+: l
      · obtain ⟨r, rfl⟩ := hin
        by_cases hr : r = []
        · rw [hr, List.append_nil]
          exact hq
        · exact absurd rfl (hl q r hr)
      · rw [Tree.Open, hsame l hin]
        exact hopen
    · rw [hsame _ (h.not_backing_of_mem_way hapart Path.start_mem_way)]
      exact h.start
    · intro p hp
      rw [hsame _ (h.not_backing_home hapart (s := [p.server]) (Nat.le_succ 1))]
      exact (h.holds hp).server
    · intro p hp
      rw [hsame _ (h.not_backing_home hapart (s := [p.server, p.baseDir])
        (Nat.le_refl 2))]
      exact (h.holds hp).away
  · intro p hne r
    apply hsame
    rintro ⟨s, heq⟩
    exact hne (h.backing_inj hapart heq.symm).1

omit hapart in
/-- The site of an export depends only on the attachments of that export. -/
theorem site_eq (h : exports.Orderly working host) {mounts : List Attachment} {tree : Tree}
    (hsub : ∀ a ∈ host.mounts, a.directory = exports.vault q → a ∈ mounts)
    (hsup : ∀ a ∈ mounts, a.directory = exports.vault q → a ∈ host.mounts) :
    exports.site ⟨host.cwd, tree, mounts⟩ q = exports.site host q := by
  unfold site
  cases hfind : mounts.find? (·.directory == exports.vault q) with
  | none =>
    have hnone : host.mounts.find? (·.directory == exports.vault q) = none := by
      rw [List.find?_eq_none] at hfind ⊢
      intro a ha hdirectory
      exact hfind a (hsub a ha (beq_iff_eq.1 hdirectory)) hdirectory
    rw [hnone]
  | some a =>
    have hdirectory : a.directory = exports.vault q := by simpa using List.find?_some hfind
    have hmem := hsup a (List.mem_of_find?_eq_some hfind) hdirectory
    cases hfind' : host.mounts.find? (·.directory == exports.vault q) with
    | none => exact absurd (beq_iff_eq.2 hdirectory) (List.find?_eq_none.1 hfind' a hmem)
    | some b =>
      have hdirectory' : b.directory = exports.vault q := by simpa using List.find?_some hfind'
      rw [h.distinct a hmem b (List.mem_of_find?_eq_some hfind')
        (.inr (hdirectory.trans hdirectory'.symm))]

/-- No other export is where an export is moved to or from. -/
theorem not_site_of_ne (h : exports.Orderly working host) (hne : exports.vault q ≠ exports.vault p)
    (hfree : ∀ a ∈ host.mounts, a.target = working.child p.name → a.directory = exports.vault p)
    (r : Location) :
    (¬ working.location host.cwd ++ [p.name] <+: exports.site host q ++ r) ∧
      ¬ exports.home.location host.cwd ++ [p.server, p.baseDir] <+: exports.site host q ++ r := by
  rcases h.site_cases q with ⟨q', hq', hvault, hsite⟩ | ⟨-, hsite⟩
  · rw [hsite, List.append_assoc]
    constructor
    · rintro ⟨s, heq⟩
      rw [List.append_assoc] at heq
      obtain ⟨hname, -⟩ := List.cons.inj (List.append_cancel_left heq)
      have htarget : working.child q'.name = working.child p.name := by rw [hname]
      exact hne (hvault.symm.trans (hfree _ hq' htarget))
    · exact hapart.home_not_above _ _
  · rw [hsite, List.append_assoc]
    constructor
    · exact hapart.point_not_above _ _
    · rintro ⟨s, heq⟩
      rw [List.append_assoc] at heq
      have hlist := List.append_cancel_left heq
      simp only [List.cons_append, List.nil_append, List.cons.injEq] at hlist
      exact hne (vault_congr hlist.1.symm hlist.2.1.symm)

end Orderly

/-- An export is moved between its vault and the mount point of a volume, and nothing else
changes. -/
structure Relocated (exports : Exports) (working : Path) (p : Placement)
    (host : Host (List Attachment)) (t' : Tree) (mounts : List Attachment) : Prop where
  way : ∀ l ∈ working.way host.cwd, ¬ working.location host.cwd ++ [p.name] <+: l
  elsewhere : ∀ l, ¬ working.location host.cwd ++ [p.name] <+: l →
    ¬ exports.home.location host.cwd ++ [p.server, p.baseDir] <+: l → t'.get? l = host.tree.get? l
  point : t'.Open (working.location host.cwd ++ [p.name])
  vault : t'.Open (exports.home.location host.cwd ++ [p.server, p.baseDir])
  free : ∀ a ∈ host.mounts, a.target = working.child p.name → a.directory = exports.vault p
  others : ∀ a, a.directory ≠ exports.vault p → (a ∈ mounts ↔ a ∈ host.mounts)
  own : ∀ a ∈ mounts, a.directory = exports.vault p →
    a = exports.attachment working p ∧ exports.Holds working ⟨host.cwd, t', mounts⟩ p
  moved : ∀ q, exports.vault q = exports.vault p → ∀ r,
    t'.get? (exports.site ⟨host.cwd, t', mounts⟩ q ++ r) =
      host.tree.get? (exports.site host q ++ r)

namespace Relocated

variable {mounts : List Attachment}

theorem aside (h : exports.Relocated working p host t' mounts) :
    exports.Aside working p.name host ⟨host.cwd, t', mounts⟩ :=
  ⟨rfl, fun l _ _ hpoint hin =>
    h.elsewhere l hpoint fun hvault => hin ((List.prefix_append _ _).trans hvault)⟩

/-- No two exports are attached at one mount point, and none at two. -/
theorem distinct (h : exports.Relocated working p host t' mounts)
    (hdistinct : ∀ a ∈ host.mounts, ∀ b ∈ host.mounts,
      a.target = b.target ∨ a.directory = b.directory → a = b) :
    ∀ a ∈ mounts, ∀ b ∈ mounts, a.target = b.target ∨ a.directory = b.directory → a = b := by
  -- At the mount point nothing but this export can be attached.
  have hfree : ∀ a ∈ mounts, a.target = working.child p.name → a.directory = exports.vault p := by
    intro a ha htarget
    by_cases hdirectory : a.directory = exports.vault p
    · exact hdirectory
    · exact h.free a ((h.others a hdirectory).1 ha) htarget
  have hown : ∀ a ∈ mounts, ∀ b ∈ mounts, a.directory = exports.vault p →
      a.target = b.target ∨ a.directory = b.directory → a = b := by
    intro a ha b hb hda hab
    obtain ⟨heq, -⟩ := h.own a ha hda
    have hdb : b.directory = exports.vault p := by
      rcases hab with hab | hab
      · apply hfree b hb
        rw [← hab, heq]
        rfl
      · exact hab.symm.trans hda
    rw [heq, (h.own b hb hdb).1]
  intro a ha b hb hab
  by_cases hda : a.directory = exports.vault p
  · exact hown a ha b hb hda hab
  · by_cases hdb : b.directory = exports.vault p
    · exact (hown b hb a ha hdb (hab.imp Eq.symm Eq.symm)).symm
    · exact hdistinct a ((h.others a hda).1 ha) b ((h.others b hdb).1 hb) hab

variable (hapart : exports.Apart working host.cwd)
include hapart

theorem get?_way (h : exports.Relocated working p host t' mounts) {l : Location}
    (hl : l ∈ working.way host.cwd) : t'.get? l = host.tree.get? l := by
  refine h.elsewhere l (h.way l hl) fun hin => ?_
  exact hapart.way_outside l hl ((List.prefix_append _ _).trans hin)

theorem get?_home (h : exports.Relocated working p host t' mounts) {s : Location}
    (hs : ¬ [p.server, p.baseDir] <+: s) :
    t'.get? (exports.home.location host.cwd ++ s) =
      host.tree.get? (exports.home.location host.cwd ++ s) :=
  h.elsewhere _ (hapart.point_not_above _ _) fun hin => hs ((List.prefix_append_right_inj _).1 hin)

theorem get?_server (h : exports.Relocated working p host t' mounts) (server : String) :
    t'.get? (exports.home.location host.cwd ++ [server]) =
      host.tree.get? (exports.home.location host.cwd ++ [server]) := by
  apply h.get?_home hapart
  intro hin
  have hlength := hin.length_le
  simp at hlength

theorem sameVolumes (h : exports.Relocated working p host t' mounts)
    (horderly : exports.Orderly working host) :
    exports.SameVolumes host ⟨host.cwd, t', mounts⟩ := by
  intro q r
  rw [backing, backing, List.append_assoc, List.append_assoc]
  by_cases hq : exports.vault q = exports.vault p
  · exact h.moved q hq _
  · have hsite : exports.site ⟨host.cwd, t', mounts⟩ q = exports.site host q := by
      apply horderly.site_eq
      · intro a ha hdirectory
        exact (h.others a (hdirectory ▸ hq)).2 ha
      · intro a ha hdirectory
        exact (h.others a (hdirectory ▸ hq)).1 ha
    obtain ⟨hpoint, hvault⟩ := horderly.not_site_of_ne hapart hq h.free (q.name :: r)
    rw [hsite]
    exact h.elsewhere _ hpoint hvault

theorem attached (h : exports.Relocated working p host t' mounts)
    (horderly : exports.Orderly working host) :
    ∀ a ∈ mounts, ∃ q, a = exports.attachment working q ∧
      exports.Holds working ⟨host.cwd, t', mounts⟩ q := by
  intro a ha
  by_cases hdirectory : a.directory = exports.vault p
  · exact ⟨p, h.own a ha hdirectory⟩
  · obtain ⟨q, rfl, hq⟩ := horderly.attached a ((h.others a hdirectory).1 ha)
    refine ⟨q, rfl, hq.plain, hq.target_usable, hq.vault_usable, hq.way_outside, ?_, ?_⟩
    · exact (h.get?_server hapart _).trans hq.server
    · refine (h.get?_home hapart fun hin => ?_).trans hq.away
      have heq := hin.eq_of_length rfl
      simp only [List.cons.injEq, and_true] at heq
      exact hdirectory (vault_congr heq.1.symm heq.2.symm)

theorem orderly (h : exports.Relocated working p host t' mounts)
    (horderly : exports.Orderly working host) :
    exports.Orderly working ⟨host.cwd, t', mounts⟩ where
  start := (h.get?_way hapart Path.start_mem_way).trans horderly.start
  way l hl := by
    unfold Tree.Open
    rw [h.get?_way hapart hl]
    exact horderly.way l hl
  points name := by
    by_cases hname : name = p.name
    · rw [hname]
      exact h.point
    · unfold Tree.Open
      rw [h.elsewhere]
      · exact horderly.points name
      · intro hin
        obtain ⟨r, heq⟩ := (List.prefix_append_right_inj _).1 hin
        exact hname (List.cons.inj heq).1.symm
      · exact hapart.home_not_above _ _
  home l hl := by
    have hup : l <+: exports.home.location host.cwd :=
      Path.prefix_of_mem_way hapart.home_down hl
    unfold Tree.Open
    rw [h.elsewhere]
    · exact horderly.home l hl
    · intro hin
      exact hapart.home_outside (((List.prefix_append _ _).trans hin).trans hup)
    · intro hin
      have hlength := (hin.trans hup).length_le
      simp only [List.length_append, List.length_cons, List.length_nil] at hlength
      omega
  servers server := by
    unfold Tree.Open
    rw [h.get?_server hapart]
    exact horderly.servers server
  vaults server baseDir := by
    by_cases hin : [p.server, p.baseDir] <+: [server, baseDir]
    · rw [← hin.eq_of_length rfl]
      exact h.vault
    · unfold Tree.Open
      rw [h.get?_home hapart hin]
      exact horderly.vaults server baseDir
  volumes q := by
    have hq := h.sameVolumes hapart horderly q []
    rw [List.append_nil, List.append_nil] at hq
    unfold Tree.Open
    rw [hq]
    exact horderly.volumes q
  attached := h.attached hapart horderly
  distinct := h.distinct horderly.distinct

end Relocated

namespace Orderly

variable (hapart : exports.Apart working host.cwd)
include hapart

omit hapart in
/-- An export is in its vault unless it is attached. -/
theorem site_of_free {tree : Tree} {cwd : Location} {mounts : List Attachment}
    (hfree : ∀ a ∈ mounts, a.directory ≠ exports.vault p)
    (hq : exports.vault q = exports.vault p) :
    exports.site ⟨cwd, tree, mounts⟩ q =
      exports.home.location cwd ++ [p.server, p.baseDir] := by
  have hnone : mounts.find? (·.directory == exports.vault q) = none := by
    rw [List.find?_eq_none]
    intro a ha hdirectory
    exact hfree a ha ((beq_iff_eq.1 hdirectory).trans hq)
  obtain ⟨hserver, hbaseDir⟩ := vault_inj hq
  unfold site
  rw [hnone, ← hserver, ← hbaseDir]

omit hapart in
/-- An export that is attached at one mount point only is there. -/
theorem site_of_own {tree : Tree} {cwd : Location} {mounts : List Attachment} (hp : p.Plain)
    (hmem : exports.attachment working p ∈ mounts)
    (hown : ∀ a ∈ mounts, a.directory = exports.vault p → a = exports.attachment working p)
    (hq : exports.vault q = exports.vault p) :
    exports.site ⟨cwd, tree, mounts⟩ q = working.location cwd ++ [p.name] := by
  unfold site
  cases hfind : mounts.find? (·.directory == exports.vault q) with
  | none => exact absurd (beq_iff_eq.2 hq.symm) (List.find?_eq_none.1 hfind _ hmem)
  | some a =>
    have hdirectory : a.directory = exports.vault q := by simpa using List.find?_some hfind
    rw [hown a (List.mem_of_find?_eq_some hfind) (hdirectory.trans hq)]
    exact location_target hp

/-- The export of a volume is moved from its vault to the volume's mount point. -/
theorem attach (h : exports.Orderly working host) (hp : p.Plain)
    (htarget : ∀ a ∈ host.mounts, a.target ≠ working.child p.name)
    (hvault : ∀ a ∈ host.mounts, a.directory ≠ exports.vault p)
    (husable : (working.child p.name).Usable) (husable' : (exports.vault p).Usable)
    (hpass : host.tree.Passable host.cwd working)
    (hfree : host.tree.get? (working.location host.cwd ++ [p.name]) = none)
    (hthere : host.tree.get? (exports.home.location host.cwd ++ [p.server, p.baseDir]) =
      some .directory)
    (hmoved : host.tree.Moved t' (exports.home.location host.cwd ++ [p.server, p.baseDir])
      (working.location host.cwd ++ [p.name])) :
    let host' : Host (List Attachment) :=
      ⟨host.cwd, t', host.mounts ++ [exports.attachment working p]⟩
    exports.Orderly working host' ∧ exports.SameVolumes host host' ∧
      exports.Aside working p.name host host' := by
  intro host'
  have hway : ∀ l ∈ working.way host.cwd,
      ¬ working.location host.cwd ++ [p.name] <+: l := by
    exact fun l hl => Tree.not_below_of_free hfree (hpass l hl)
  have hpoint : t'.get? (working.location host.cwd ++ [p.name]) = some .directory := by
    have hself := hmoved.at_target []
    rw [List.append_nil, List.append_nil, hthere] at hself
    exact hself
  have haway : t'.get? (exports.home.location host.cwd ++ [p.server, p.baseDir]) = none := by
    refine hmoved.at_source _ (List.prefix_refl _) ?_
    exact hapart.point_not_above _ _
  have hserver : t'.get? (exports.home.location host.cwd ++ [p.server]) = some .directory := by
    rw [hmoved.elsewhere]
    · apply @Tree.get?_parent _ _ p.baseDir .directory
      rw [List.append_assoc]
      exact hthere
    · intro hin
      have hlength := hin.length_le
      simp at hlength
    · exact hapart.point_not_above _ _
  have hown : ∀ a ∈ host'.mounts, a.directory = exports.vault p →
      a = exports.attachment working p := by
    intro a ha hdirectory
    rcases List.mem_append.1 ha with ha | ha
    · exact absurd hdirectory (hvault a ha)
    · exact List.mem_singleton.1 ha
  suffices hrelocated : exports.Relocated working p host t' host'.mounts from
    ⟨hrelocated.orderly hapart h, hrelocated.sameVolumes hapart h, hrelocated.aside⟩
  refine ⟨hway, ?_, ?_, ?_, ?_, ?_, ?_, ?_⟩
  · intro l htarget hsource
    exact hmoved.elsewhere l hsource htarget
  · exact .inr hpoint
  · exact .inl haway
  · intro a ha hat
    exact absurd hat (htarget a ha)
  · intro a hdirectory
    rw [List.mem_append, List.mem_singleton]
    constructor
    · rintro (ha | rfl)
      · exact ha
      · exact absurd rfl hdirectory
    · exact .inl
  · intro a ha hdirectory
    exact ⟨hown a ha hdirectory, hp, husable, husable', hway, hserver, haway⟩
  · intro q hq r
    have hmem : exports.attachment working p ∈ host'.mounts :=
      List.mem_append_right _ (List.mem_singleton_self _)
    have hsite := @site_of_free _ _ _ host.tree host.cwd _ hvault hq
    rw [site_of_own hp hmem hown hq]
    rw [show exports.site host q = _ from hsite]
    exact hmoved.at_target r

/-- The export of a volume is moved back from the volume's mount point. -/
theorem put_back (h : exports.Orderly working host)
    (hmem : exports.attachment working p ∈ host.mounts) {moved : Tree}
    (hthere : host.tree.get? (working.location host.cwd ++ [p.name]) = some .directory)
    (hmoved : host.tree.Moved moved (working.location host.cwd ++ [p.name])
      (exports.home.location host.cwd ++ [p.server, p.baseDir]))
    (hput : moved.Put t' (working.location host.cwd ++ [p.name]) (some .directory)) :
    let host' : Host (List Attachment) :=
      ⟨host.cwd, t', host.mounts.filter (·.target != working.child p.name)⟩
    exports.Orderly working host' ∧ exports.SameVolumes host host' ∧
      exports.Aside working p.name host host' := by
  intro host'
  have hp := h.holds hmem
  have hatVault : ∀ r, t'.get? (exports.home.location host.cwd ++ [p.server, p.baseDir] ++ r) =
      host.tree.get? (working.location host.cwd ++ [p.name] ++ r) := by
    intro r
    rw [hput, if_neg]
    · exact hmoved.at_target r
    · exact fun heq => hapart.home_not_above [p.name] [p.server, p.baseDir] ⟨r, heq⟩
  have hgone : ∀ a ∈ host'.mounts, a.directory ≠ exports.vault p := by
    intro a ha hdirectory
    obtain ⟨ha, htarget⟩ := List.mem_filter.1 ha
    rw [h.distinct a ha _ hmem (.inr hdirectory)] at htarget
    exact absurd rfl (bne_iff_ne.1 htarget)
  suffices hrelocated : exports.Relocated working p host t' host'.mounts from
    ⟨hrelocated.orderly hapart h, hrelocated.sameVolumes hapart h, hrelocated.aside⟩
  refine ⟨hp.way_outside, ?_, ?_, ?_, ?_, ?_, ?_, ?_⟩
  · intro l htarget hsource
    rw [hput, if_neg]
    · exact hmoved.elsewhere l htarget hsource
    · rintro rfl
      exact htarget (List.prefix_refl _)
  · exact .inr ((hput _).trans (if_pos rfl))
  · have hself := hatVault []
    rw [List.append_nil, List.append_nil, hthere] at hself
    exact .inr hself
  · intro a ha htarget
    rw [h.distinct a ha _ hmem (.inl htarget)]
    rfl
  · intro a hdirectory
    rw [List.mem_filter]
    constructor
    · exact fun ha => ha.1
    · intro ha
      refine ⟨ha, bne_iff_ne.2 fun htarget => hdirectory ?_⟩
      rw [h.distinct a ha _ hmem (.inl htarget)]
      rfl
  · intro a ha hdirectory
    exact absurd hdirectory (hgone a ha)
  · intro q hq r
    have hown : ∀ a ∈ host.mounts, a.directory = exports.vault p →
        a = exports.attachment working p :=
      fun a ha hdirectory => h.distinct a ha _ hmem (.inr hdirectory)
    have hsite := @site_of_own _ _ _ _ host.tree host.cwd _ hp.plain hmem hown hq
    rw [site_of_free hgone hq, show exports.site host q = _ from hsite]
    exact hatVault r

end Orderly
end NfsProvisioner.Exports
