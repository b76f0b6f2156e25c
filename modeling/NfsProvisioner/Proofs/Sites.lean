import NfsProvisioner.Proofs.Directories
import NfsProvisioner.Proofs.PlainNames

/-!
# Where the volumes of a host stand

An export is either in its own directory, its vault, or at the mount point where it is attached, and
its volumes stand where it is. `Orderly` is what holds of the files and the attachments of a host
between any two calls to the mounter: no symbolic link stands where requests walk, and an attached
export is away from its vault. Under it no two exports are at the same place, nor is one inside
another, so a change inside one volume is no change of anything else (`Orderly.inside`).
-/
namespace NfsProvisioner.Exports

/-- The directory of the export that holds a volume. -/
def vault (exports : Exports) (p : Placement) : Path :=
  (exports.home.child p.server).child p.baseDir

/-- How the mounter remembers that the export of a volume is attached at the volume's mount
point. -/
def attachment (exports : Exports) (working : Path) (p : Placement) : Attachment :=
  ⟨working.child p.name, exports.vault p⟩

/-- Where the export that holds a volume is at the moment. -/
def site (exports : Exports) (host : Host (List Attachment)) (p : Placement) : Location :=
  match host.mounts.find? (·.directory == exports.vault p) with
  | some a => a.target.location host.cwd
  | none => exports.home.location host.cwd ++ [p.server, p.baseDir]

/-- Where the directory of a volume is at the moment. -/
def backing (exports : Exports) (host : Host (List Attachment)) (p : Placement) : Location :=
  exports.site host p ++ [p.name]

/-- A working directory and a home of exports neither of which is inside the other. Nor does the
working directory's path lead through the home, by `..`. -/
structure Apart (exports : Exports) (working : Path) (cwd : Location) : Prop where
  working_normal : working.Normal
  home_normal : exports.home.Normal
  home_down : ".." ∉ exports.home.names
  home_rooted : exports.home.anchor ≠ .here
  home_outside : ¬ working.location cwd <+: exports.home.location cwd
  way_outside : ∀ l ∈ working.way cwd, ¬ exports.home.location cwd <+: l
  start_outside : ∀ name, working.start cwd ≠ working.location cwd ++ [name]

/-- What holds of an export that is attached at the mount point of one of its volumes. -/
structure Holds (exports : Exports) (working : Path) (host : Host (List Attachment))
    (p : Placement) : Prop where
  plain : p.Plain
  target_usable : (working.child p.name).Usable
  vault_usable : (exports.vault p).Usable
  way_outside : ∀ l ∈ working.way host.cwd, ¬ working.location host.cwd ++ [p.name] <+: l
  server : host.tree.get? (exports.home.location host.cwd ++ [p.server]) = some .directory
  away : host.tree.get? (exports.home.location host.cwd ++ [p.server, p.baseDir]) = none

/-- A host on which exports are attached at mount points only and no symbolic link stands where
requests walk. -/
structure Orderly (exports : Exports) (working : Path) (host : Host (List Attachment)) : Prop where
  start : host.tree.get? (working.start host.cwd) = some .directory
  way : host.tree.Clear host.cwd working
  points : ∀ name, host.tree.Open (working.location host.cwd ++ [name])
  home : host.tree.Clear host.cwd exports.home
  servers : ∀ server, host.tree.Open (exports.home.location host.cwd ++ [server])
  vaults : ∀ server baseDir, host.tree.Open (exports.home.location host.cwd ++ [server, baseDir])
  volumes : ∀ p, host.tree.Open (exports.backing host p)
  attached : ∀ a ∈ host.mounts, ∃ p, a = exports.attachment working p ∧
    exports.Holds working host p
  distinct : ∀ a ∈ host.mounts, ∀ b ∈ host.mounts,
    a.target = b.target ∨ a.directory = b.directory → a = b

variable {exports : Exports} {working : Path} {host : Host (List Attachment)} {p q : Placement}

theorem directory_eq_vault (h : p.Plain) :
    exports.directory p.server p.baseSharePath = exports.vault p :=
  directory_of_plain exports h.baseDir

theorem vault_inj (h : exports.vault p = exports.vault q) :
    p.server = q.server ∧ p.baseDir = q.baseDir := by
  have hnames := congrArg Path.names h
  simp only [vault, Path.child, List.append_assoc, List.append_cancel_left_eq] at hnames
  simpa using hnames

theorem vault_congr (hserver : p.server = q.server) (hbaseDir : p.baseDir = q.baseDir) :
    exports.vault p = exports.vault q := by
  rw [vault, vault, hserver, hbaseDir]

/-- What is to be checked of a controller that has been started: that it is told to work outside the
home of the exports. -/
theorem Apart.of_start {driver : Driver} {settings : Settings} {cwd : Location}
    (hcwd : ∀ name ∈ cwd, Path.isName name = true) (hhome : exports.home.Normal)
    (hdown : ".." ∉ exports.home.names) (hrooted : exports.home.anchor ≠ .here)
    (houtside : ¬ (Controller.start driver settings cwd).working.location cwd <+:
      exports.home.location cwd)
    (hway : ∀ l ∈ (Controller.start driver settings cwd).working.way cwd,
      ¬ exports.home.location cwd <+: l) :
    exports.Apart (Controller.start driver settings cwd).working cwd where
  working_normal := Controller.normal_start hcwd
  home_normal := hhome
  home_down := hdown
  home_rooted := hrooted
  home_outside := houtside
  way_outside := hway
  start_outside name := by
    intro heq
    have hlength := congrArg List.length heq
    rw [List.length_append] at hlength
    by_cases hempty : settings.workingDirectory = ""
    · have hworking : (Controller.start driver settings cwd).working = Path.empty := if_pos hempty
      rw [hworking] at hlength
      have hlocation : Path.empty.location cwd = Path.empty.start cwd := rfl
      rw [hlocation] at hlength
      simp at hlength
    · have hstart : (Controller.start driver settings cwd).working.start cwd = [] := by
        unfold Controller.start Path.absolute Path.start
        dsimp only
        rw [if_neg hempty]
        cases Path.anchorOf settings.workingDirectory.toList <;> rfl
      rw [hstart] at hlength
      simp at hlength

theorem Apart.ne {cwd : Location} (h : exports.Apart working cwd) (r s : Location) :
    working.location cwd ++ r ≠ exports.home.location cwd ++ s := by
  intro heq
  have hw : working.location cwd <+: exports.home.location cwd ++ s :=
    heq ▸ List.prefix_append _ r
  rcases List.prefix_or_prefix_of_prefix hw (List.prefix_append _ s) with hin | hin
  · exact h.home_outside hin
  · exact h.way_outside _ Path.location_mem_way hin

theorem Apart.point_not_above {cwd : Location} (h : exports.Apart working cwd) (r s : Location) :
    ¬ working.location cwd ++ r <+: exports.home.location cwd ++ s := by
  rintro ⟨u, heq⟩
  rw [List.append_assoc] at heq
  exact h.ne _ _ heq

theorem Apart.home_not_above {cwd : Location} (h : exports.Apart working cwd) (r s : Location) :
    ¬ exports.home.location cwd ++ s <+: working.location cwd ++ r := by
  rintro ⟨u, heq⟩
  rw [List.append_assoc] at heq
  exact h.ne _ _ heq.symm

theorem location_target (h : p.Plain) {cwd : Location} :
    (working.child p.name).location cwd = working.location cwd ++ [p.name] :=
  Path.location_child h.name.ne_up

theorem location_server (h : p.Plain) {cwd : Location} :
    (exports.home.child p.server).location cwd ++ [p.baseDir] =
      exports.home.location cwd ++ [p.server, p.baseDir] := by
  rw [Path.location_child h.server.ne_up, List.append_assoc]
  rfl

theorem location_vault (h : p.Plain) {cwd : Location} :
    (exports.vault p).location cwd = exports.home.location cwd ++ [p.server, p.baseDir] := by
  rw [vault, Path.location_child h.baseDir.ne_up, location_server h]

theorem attachment_inj (h : exports.attachment working p = exports.attachment working q) :
    p = q := by
  obtain ⟨htarget, hdirectory⟩ := Attachment.mk.inj h
  obtain ⟨hserver, hbaseDir⟩ := vault_inj hdirectory
  have hnames := congrArg Path.names htarget
  simp only [Path.child, List.append_cancel_left_eq, List.cons.injEq, and_true] at hnames
  cases p
  cases q
  simp only at hserver hbaseDir hnames
  rw [hserver, hbaseDir, hnames]

namespace Orderly

theorem holds (h : exports.Orderly working host)
    (hp : exports.attachment working p ∈ host.mounts) : exports.Holds working host p := by
  obtain ⟨q, heq, hq⟩ := h.attached _ hp
  rw [attachment_inj heq]
  exact hq

/-- The export of a volume is in its vault or at a mount point. -/
theorem site_cases (h : exports.Orderly working host) (p : Placement) :
    (∃ q, exports.attachment working q ∈ host.mounts ∧ exports.vault q = exports.vault p ∧
      exports.site host p = working.location host.cwd ++ [q.name]) ∨
    (∀ a ∈ host.mounts, a.directory ≠ exports.vault p) ∧
      exports.site host p = exports.home.location host.cwd ++ [p.server, p.baseDir] := by
  unfold site
  cases hfind : host.mounts.find? (·.directory == exports.vault p) with
  | some a =>
    have hmem := List.mem_of_find?_eq_some hfind
    have hdirectory : a.directory = exports.vault p := by simpa using List.find?_some hfind
    obtain ⟨q, rfl, hq⟩ := h.attached a hmem
    exact .inl ⟨q, hmem, hdirectory, location_target hq.plain⟩
  | none =>
    refine .inr ⟨fun a ha hdirectory => ?_, rfl⟩
    have hnot := List.find?_eq_none.1 hfind a ha
    exact hnot (beq_iff_eq.2 hdirectory)

theorem site_of_mem (h : exports.Orderly working host)
    (hq : exports.attachment working q ∈ host.mounts) (hvault : exports.vault q = exports.vault p) :
    exports.site host p = working.location host.cwd ++ [q.name] := by
  rcases h.site_cases p with ⟨q', hq', hvault', hsite⟩ | ⟨hnone, -⟩
  · have heq := h.distinct _ hq _ hq' (.inr (hvault.trans hvault'.symm))
    rw [attachment_inj heq]
    exact hsite
  · exact absurd hvault (hnone _ hq)

variable (hapart : exports.Apart working host.cwd)
include hapart

/-- Different exports are at places that are not inside one another. -/
theorem site_inj (h : exports.Orderly working host) {r s : Location}
    (heq : exports.site host p ++ r = exports.site host q ++ s) :
    exports.vault p = exports.vault q ∧ r = s := by
  rcases h.site_cases p with ⟨p', hp', hvault, hsite⟩ | ⟨-, hsite⟩ <;>
    rcases h.site_cases q with ⟨q', hq', hvault', hsite'⟩ | ⟨-, hsite'⟩ <;>
    rw [hsite, hsite', List.append_assoc, List.append_assoc] at heq
  · obtain ⟨hname, hrest⟩ := List.cons.inj (List.append_cancel_left heq)
    have htarget : working.child p'.name = working.child q'.name := by rw [hname]
    have hsame := attachment_inj (h.distinct _ hp' _ hq' (.inl htarget))
    rw [← hvault, ← hvault', hsame]
    exact ⟨rfl, hrest⟩
  · exact absurd heq (hapart.ne _ _)
  · exact absurd heq.symm (hapart.ne _ _)
  · have hlist := List.append_cancel_left heq
    simp only [List.cons_append, List.nil_append, List.cons.injEq] at hlist
    obtain ⟨hserver, hbaseDir, hrest⟩ := hlist
    exact ⟨vault_congr hserver hbaseDir, hrest⟩

/-- Different volumes stand at places that are not inside one another. -/
theorem backing_inj (h : exports.Orderly working host) {r s : Location}
    (heq : exports.backing host p ++ r = exports.backing host q ++ s) : p = q ∧ r = s := by
  rw [backing, backing, List.append_assoc, List.append_assoc] at heq
  obtain ⟨hvault, hrest⟩ := h.site_inj hapart heq
  obtain ⟨hname, hrest⟩ := List.cons.inj hrest
  obtain ⟨hserver, hbaseDir⟩ := vault_inj hvault
  refine ⟨?_, hrest⟩
  cases p
  cases q
  simp only at hserver hbaseDir hname
  rw [hserver, hbaseDir, hname]

theorem not_site_of_mem_way (h : exports.Orderly working host) {l : Location}
    (hl : l ∈ working.way host.cwd) : ¬ exports.site host p <+: l := by
  intro hin
  rcases h.site_cases p with ⟨q, hq, -, hsite⟩ | ⟨-, hsite⟩
  · rw [hsite] at hin
    exact (h.holds hq).way_outside l hl hin
  · rw [hsite] at hin
    exact hapart.way_outside l hl ((List.prefix_append _ _).trans hin)

theorem not_backing_of_mem_way (h : exports.Orderly working host) {l : Location}
    (hl : l ∈ working.way host.cwd) : ¬ exports.backing host p <+: l :=
  fun hin => h.not_site_of_mem_way hapart hl ((List.prefix_append _ _).trans hin)

/-- No mount point is a volume or inside one. -/
theorem not_backing_point (h : exports.Orderly working host) (name : String) :
    ¬ exports.backing host p <+: working.location host.cwd ++ [name] := by
  rintro ⟨r, heq⟩
  rw [backing] at heq
  rcases h.site_cases p with ⟨q, hq, -, hsite⟩ | ⟨-, hsite⟩
  · have hlength := congrArg List.length heq
    rw [hsite] at hlength
    simp only [List.length_append, List.length_cons, List.length_nil] at hlength
    omega
  · rw [hsite, List.append_assoc, List.append_assoc] at heq
    exact hapart.ne _ _ heq.symm

/-- No vault and nothing above one is a volume or inside one. -/
theorem not_backing_home (h : exports.Orderly working host) {s : Location} (hs : s.length ≤ 2) :
    ¬ exports.backing host p <+: exports.home.location host.cwd ++ s := by
  rintro ⟨r, heq⟩
  rw [backing] at heq
  rcases h.site_cases p with ⟨q, hq, -, hsite⟩ | ⟨-, hsite⟩
  · rw [hsite, List.append_assoc, List.append_assoc] at heq
    exact hapart.ne _ _ heq
  · have hlength := congrArg List.length heq
    rw [hsite] at hlength
    simp only [List.length_append, List.length_cons, List.length_nil] at hlength
    omega

theorem not_backing_of_mem_home (h : exports.Orderly working host) {l : Location}
    (hl : l ∈ exports.home.way host.cwd) : ¬ exports.backing host p <+: l := by
  intro hin
  have hup := Path.prefix_of_mem_way hapart.home_down hl
  have hhome := h.not_backing_home hapart (p := p) (s := []) (Nat.zero_le 2)
  rw [List.append_nil] at hhome
  exact hhome (hin.trans hup)

end Orderly
end NfsProvisioner.Exports
