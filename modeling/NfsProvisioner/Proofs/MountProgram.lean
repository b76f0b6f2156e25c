import NfsProvisioner.Mounter.NfsClient

/-!
# What becomes of a run of the program `mount`

The program is started if it can be and if it can be given its arguments, none of which may hold
U+0000. Exactly if it is started, the attempt records one run. It succeeds exactly if the program is
started and ends with status 0, and says so in the log; otherwise it fails for one reason, named
after the target.
-/
namespace NfsProvisioner.NfsClient

/-- No text that goes into the arguments of the program holds U+0000. -/
structure NulFree (client : NfsClient) (target server share : String) : Prop where
  target : '\x00' ∉ target.toList
  server : '\x00' ∉ server.toList
  share : '\x00' ∉ share.toList
  options : ∀ option ∈ client.options, '\x00' ∉ option.toList

/-- The program is there and can be executed. -/
def Startable (client : NfsClient) : Prop :=
  ∃ ending messages, client.program = .runs ending messages

/-- The program is started to attach an export. -/
structure Starts (client : NfsClient) (target server share : String) : Prop where
  nulFree : client.NulFree target server share
  startable : client.Startable

/-- The program is started to attach an export, and ends with status 0. -/
structure Mounts (client : NfsClient) (target server share : String) : Prop where
  nulFree : client.NulFree target server share
  succeeds : ∃ messages, client.program = .runs (.exited 0) messages

variable {client : NfsClient} {target server share : String}

theorem Mounts.starts (h : client.Mounts target server share) :
    client.Starts target server share :=
  ⟨h.nulFree, _, h.succeeds⟩

/-- U+0000 is in no argument exactly if it is in none of the texts that the arguments are made
of. -/
theorem nulFree_iff : client.NulFree target server share ↔
    ∀ argument ∈ client.arguments target server share, '\x00' ∉ argument.toList := by
  have hoptions : '\x00' ∉ [','].intercalate (client.options.map String.toList) ↔
      ∀ option ∈ client.options, '\x00' ∉ option.toList := by
    rw [Text.mem_intercalate (by decide)]
    simp
  have hsource : '\x00' ∉ (source server share).toList ↔
      '\x00' ∉ server.toList ∧ '\x00' ∉ share.toList := by
    simp [source]
  constructor
  · rintro ⟨htarget, hserver, hshare, hfree⟩
    have hlast := hsource.2 ⟨hserver, hshare⟩
    by_cases hnone : client.options = []
    · simp [arguments, hnone, hlast, htarget]
    · simp [arguments, hnone, hlast, htarget, hoptions.2 hfree]
  · intro h
    obtain ⟨hserver, hshare⟩ := hsource.1 (h _ (by simp [arguments]))
    refine ⟨h _ (by simp [arguments]), hserver, hshare, ?_⟩
    by_cases hnone : client.options = []
    · simp [hnone]
    · have hjoined := h (",".intercalate client.options) (by simp [arguments, hnone])
      rw [String.toList_intercalate] at hjoined
      exact hoptions.1 hjoined

/-- What becomes of an attempt to mount an export. -/
inductive Attempted (client : NfsClient) (target server share : String) : MountAttempt → Prop
  | notStarted (fault : MountFault) (h : ¬ client.Starts target server share) :
    Attempted client target server share ⟨.error (.mountFailed target fault.message), none, []⟩
  | mounted (h : client.Mounts target server share) :
    Attempted client target server share ⟨.ok (), some (client.arguments target server share),
      [⟨.info, "nfs export mounted", [("source", source server share)]⟩]⟩
  | failed (ending : Ending) (messages : List UInt8)
      (hprogram : client.program = .runs ending messages) (hending : ending ≠ .exited 0)
      (h : client.Starts target server share) :
    Attempted client target server share
      ⟨.error (.mountFailed target
          (MountFault.failed (source server share) ending messages).message),
        some (client.arguments target server share), []⟩

theorem attempted (client : NfsClient) (target server share : String) :
    client.Attempted target server share (client.runMount target server share) := by
  unfold runMount
  dsimp only
  split
  · next hnul =>
    refine .notStarted .nulInArgument fun hstarts => ?_
    obtain ⟨argument, hmem, hholds⟩ := List.any_eq_true.1 hnul
    exact nulFree_iff.1 hstarts.nulFree argument hmem (of_decide_eq_true hholds)
  · next hnul =>
    have hfree : client.NulFree target server share := nulFree_iff.2 fun argument hmem hholds =>
      hnul (List.any_eq_true.2 ⟨argument, hmem, decide_eq_true hholds⟩)
    split
    · next hprogram =>
      refine .notStarted .missing fun ⟨_, _, _, hruns⟩ => ?_
      rw [hprogram] at hruns
      cases hruns
    · next hprogram =>
      refine .notStarted .notExecutable fun ⟨_, _, _, hruns⟩ => ?_
      rw [hprogram] at hruns
      cases hruns
    · next messages hprogram => exact .mounted ⟨hfree, messages, hprogram⟩
    · next ending messages hnot hprogram =>
      exact .failed ending messages hprogram hnot ⟨hfree, _, _, hprogram⟩

theorem Starts.run_eq (h : client.Starts target server share) :
    (client.runMount target server share).run = some (client.arguments target server share) := by
  have hattempted := client.attempted target server share
  generalize client.runMount target server share = attempt at hattempted ⊢
  cases hattempted with
  | notStarted fault hnot => exact absurd h hnot
  | mounted => rfl
  | failed => rfl

end NfsProvisioner.NfsClient
