import NfsProvisioner.Mounter.Exports
import NfsProvisioner.Proofs.Requests
import NfsProvisioner.Proofs.Way

/-!
# The names of a volume

Whatever course a request takes, the server, the base directory and the name that it works with are
names of directory entries: none is empty, none holds a slash, and none means a directory itself or
the one above.
-/
namespace NfsProvisioner

section

variable {ε α β : Type} {x : Except ε α} {f : α → Except ε β}

/-- Two steps succeed if the first does and then the second. -/
theorem bind_eq_ok_iff {b : β} : x >>= f = .ok b ↔ ∃ a, x = .ok a ∧ f a = .ok b := by
  cases x with
  | ok a =>
    constructor
    · exact fun h => ⟨a, rfl, h⟩
    · rintro ⟨_, ha, h⟩
      exact Except.ok.inj ha ▸ h
  | error e =>
    constructor
    · exact fun h => nomatch h
    · rintro ⟨_, ha, _⟩
      cases ha

/-- Two steps fail at the first of them, or at the second after the first has succeeded. -/
theorem bind_eq_error_iff {e : ε} :
    x >>= f = .error e ↔ x = .error e ∨ ∃ a, x = .ok a ∧ f a = .error e := by
  cases x with
  | ok a =>
    constructor
    · exact fun h => .inr ⟨a, rfl, h⟩
    · rintro (h | ⟨_, ha, h⟩)
      · cases h
      · exact Except.ok.inj ha ▸ h
  | error e' =>
    constructor
    · exact fun h => .inl (congrArg Except.error (Except.error.inj h))
    · rintro (h | ⟨_, ha, _⟩)
      · exact congrArg Except.error (Except.error.inj h)
      · cases ha

end

theorem isRelativeName_eq_false_iff {name : String} :
    isRelativeName name = false ↔ name ≠ "." ∧ name ≠ ".." := by
  rw [isRelativeName, Bool.or_eq_false_iff, beq_eq_false_iff_ne, beq_eq_false_iff_ne]

theorem checkName_eq_ok_iff {what value : String} :
    checkName what value = .ok () ↔ '/' ∉ value.toList ∧ value ≠ "." ∧ value ≠ ".." := by
  rw [← isRelativeName_eq_false_iff]
  unfold checkName
  split
  · next hslash => simp [hslash]
  · next hslash => cases hrelative : isRelativeName value <;> simp [hslash]

/-- A name that an entry of a directory can have. -/
structure PlainName (name : String) : Prop where
  nonempty : name ≠ ""
  slashless : '/' ∉ name.toList
  absolute : isRelativeName name = false

namespace PlainName

variable {name : String}

theorem isName (h : PlainName name) : Path.isName name = true := by
  have hrelative := h.absolute
  simp only [isRelativeName, Bool.or_eq_false_iff] at hrelative
  unfold Path.isName
  rw [Bool.and_eq_true]
  constructor
  · exact bne_iff_ne.2 h.nonempty
  · rw [bne, hrelative.1]
    rfl

theorem ne_up (h : PlainName name) : name ≠ ".." := by
  rintro rfl
  exact absurd h.absolute (by decide)

theorem of_checkName {what : String} (hne : name ≠ "") (h : checkName what name = .ok ()) :
    PlainName name :=
  have ⟨hslash, hrelative⟩ := checkName_eq_ok_iff.1 h
  ⟨hne, hslash, isRelativeName_eq_false_iff.2 hrelative⟩

end PlainName

namespace Placement

/-- All three names are plain. -/
structure Plain (p : Placement) : Prop where
  server : PlainName p.server
  baseDir : PlainName p.baseDir
  name : PlainName p.name

theorem required_eq_ok_iff {parameter : Parameter} {given : Option String} {value : String} :
    ParameterValues.required parameter given = .ok value ↔ given = some value ∧ value ≠ "" := by
  unfold ParameterValues.required
  cases given with
  | none => simp
  | some v =>
    dsimp only
    split
    · next hempty =>
      refine iff_of_false (fun h => by cases h) ?_
      rintro ⟨hv, hne⟩
      exact hne ((Option.some.inj hv).symm.trans hempty)
    · next hne =>
      constructor
      · intro h
        obtain rfl := Except.ok.inj h
        exact ⟨rfl, hne⟩
      · rintro ⟨hv, -⟩
        rw [Option.some.inj hv]

/-- Parameters are read as a volume exactly if all keys are known, both values are given, and all
names pass their checks. -/
theorem read_eq_ok_iff {name : String} {entries : List (String × String)} {p : Placement} :
    read name entries = .ok p ↔
      ∃ values, entries.foldlM ParameterValues.add {} = .ok values ∧
        (values.server = some p.server ∧ p.server ≠ "") ∧
        (values.baseDir = some p.baseDir ∧ p.baseDir ≠ "") ∧
        checkName Parameter.baseDir.key p.baseDir = .ok () ∧
        checkName Parameter.server.key p.server = .ok () ∧
        checkName "name" p.name = .ok () ∧ p.name = name := by
  unfold read
  constructor
  · intro h
    obtain ⟨values, hvalues, h⟩ := bind_eq_ok_iff.1 h
    obtain ⟨server, hserver, h⟩ := bind_eq_ok_iff.1 h
    obtain ⟨baseDir, hbaseDir, h⟩ := bind_eq_ok_iff.1 h
    obtain ⟨_, hcheckBase, h⟩ := bind_eq_ok_iff.1 h
    obtain ⟨_, hcheckServer, h⟩ := bind_eq_ok_iff.1 h
    obtain ⟨_, hcheckName, h⟩ := bind_eq_ok_iff.1 h
    obtain rfl := Except.ok.inj h
    exact ⟨values, hvalues, required_eq_ok_iff.1 hserver, required_eq_ok_iff.1 hbaseDir, hcheckBase,
      hcheckServer, hcheckName, rfl⟩
  · rintro ⟨values, hvalues, hserver, hbaseDir, hcheckBase, hcheckServer, hcheckName, rfl⟩
    simp only [bind, Except.bind, hvalues, required_eq_ok_iff.2 hserver,
      required_eq_ok_iff.2 hbaseDir, hcheckBase, hcheckServer, hcheckName]
    rfl

theorem plain_of_read {name : String} {entries : List (String × String)} {p : Placement}
    (hname : name ≠ "") (h : read name entries = .ok p) : p.Plain := by
  obtain ⟨values, -, ⟨-, hserver⟩, ⟨-, hbaseDir⟩, hcheckBase, hcheckServer, hcheckName, hsame⟩ :=
    read_eq_ok_iff.1 h
  exact ⟨.of_checkName hserver hcheckServer, .of_checkName hbaseDir hcheckBase,
    .of_checkName (hsame ▸ hname) hcheckName⟩

end Placement

theorem VolumeId.plain_of_read {id : VolumeId} {p : Placement} (h : id.read = .ok p) :
    p.Plain := by
  unfold read at h
  split at h
  · next server baseDir name htokens =>
    have hslash : ∀ token ∈ [server, baseDir, name], '/' ∉ token.toList := by
      intro token htoken
      rw [← htokens, tokens] at htoken
      split at htoken
      · cases htoken
      obtain ⟨piece, hpiece, rfl⟩ := List.mem_map.1 htoken
      intro hmem
      rw [String.toList_ofList] at hmem
      have := Text.not_separator_of_mem_splitWhere hpiece _ hmem
      simp at this
    split at h
    · cases h
    · cases h
    · next hempty hrelative =>
      obtain rfl := Except.ok.inj h
      have hplain : ∀ token ∈ [server, baseDir, name], PlainName token := by
        intro token htoken
        have hne := List.findIdx?_eq_none_iff.1 hempty token htoken
        refine ⟨fun heq => ?_, hslash token htoken,
          List.findIdx?_eq_none_iff.1 hrelative token htoken⟩
        rw [heq] at hne
        exact absurd hne (by decide)
      exact ⟨hplain _ (by simp), hplain _ (by simp), hplain _ (by simp)⟩
  · cases h

/-- What a request for a new volume must be like to get past its check. -/
theorem Controller.vet_inv {c : Controller} {request : CreateVolumeRequest} {p : Placement}
    (h : c.vet request = .ok p) :
    request.name ≠ "" ∧ c.driver.validateCapabilities request.capabilities = .ok () ∧
      Placement.read request.name request.parameters.toList = .ok p := by
  unfold vet at h
  simp only [bind, Except.bind] at h
  split at h
  · cases h
  next hname =>
  split at h
  · cases h
  next hcapabilities =>
  unfold Placement.ofParameters at h
  split at h
  · next hread =>
    obtain rfl := Except.ok.inj h
    exact ⟨hname, hcapabilities, hread⟩
  · cases h

/-- Whatever is not answered at once is about a volume with plain names. -/
theorem Controller.plain_of_screen {c : Controller} {r : VolumeRequest} {p : Placement}
    (h : c.screen r = .ok p) : p.Plain := by
  cases r with
  | create request =>
    simp only [screen] at h
    split at h
    · cases h
    · next q hvet =>
      obtain rfl := Except.ok.inj h
      obtain ⟨hname, -, hread⟩ := vet_inv hvet
      exact Placement.plain_of_read hname hread
  | delete id =>
    simp only [screen] at h
    split at h
    · cases h
    split at h
    · cases h
    · next hread =>
      obtain rfl := Except.ok.inj h
      exact VolumeId.plain_of_read hread

/-- The path of the working directory is in normal form once a controller has been started. -/
theorem Controller.normal_start {driver : Driver} {settings : Settings} {cwd : Location}
    (hcwd : ∀ name ∈ cwd, Path.isName name = true) :
    (start driver settings cwd).working.Normal := by
  have hnames : ∀ name ∈ Path.namesOf settings.workingDirectory, Path.isName name = true :=
    fun name hname => (List.mem_filter.1 hname).2
  unfold start Path.absolute Path.Normal
  split
  · intro name hname
    cases hname
  · cases Path.anchorOf settings.workingDirectory.toList with
    | here =>
      intro name hname
      rcases List.mem_append.1 hname with hname | hname
      · exact hcwd name hname
      · exact hnames name hname
    | root => exact hnames
    | doubleRoot => exact hnames

namespace Exports

/-- The directory of an export, below the one of its server. -/
theorem directory_of_plain (exports : Exports) {server baseDir : String} (h : PlainName baseDir) :
    exports.directory server ("/" ++ baseDir) = (exports.home.child server).child baseDir := by
  have hnames : Path.namesOf ("/" ++ baseDir) = [baseDir] := by
    unfold Path.namesOf Text.splitText
    have hsplit : Text.split '/' ("/" ++ baseDir).toList = [[], baseDir.toList] := by
      have hcons := @Text.split_append_cons '/' [] (by simp) baseDir.toList
      rw [Text.split_of_notMem h.slashless] at hcons
      rw [String.toList_append]
      exact hcons
    rw [hsplit]
    have hempty : Path.isName (String.ofList []) = false := by decide
    simp [hempty, h.isName]
  rw [directory, hnames]
  rfl

end Exports
end NfsProvisioner
