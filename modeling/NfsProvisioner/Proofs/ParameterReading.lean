import NfsProvisioner.Proofs.Restoration
import NfsProvisioner.Proofs.VolumeIds

/-!
# How the parameters of a volume are read

The parameters of a request come as a map, whose entries are visited in no particular order, and
with keys that are put into lower case. Neither makes a difference. No text becomes the name of a
parameter but by the case of its ASCII letters (`Parameter.ofKey?_eq_some_iff`), and where the
spellings of one parameter agree on its value, any order yields the same values
(`ParameterValues.foldlM_add_ok`), so the same checks are made on them in the same order.
-/
namespace NfsProvisioner

namespace Text

/-- The run of the ASCII letters. -/
def asciiRun : CaseRun :=
  (0x41, 0x5A, 1, 0x61)

theorem caseRuns_eq : caseRuns = asciiRun :: caseRuns.tail :=
  rfl

/-- The letters of all other runs are not ASCII. Only the Kelvin sign has a lower-case form in
ASCII, and all others have a character that is not ASCII for it. -/
theorem target_of_mem_tail : ∀ run ∈ caseRuns.tail, 128 ≤ run.1 ∧
    (run = (0x212A, 0x212A, 1, 0x6B) ∨ 128 ≤ run.2.2.2 ∧
      (run.2.2.2 + (run.2.1 - run.1) < 0xD800 ∨
        0xDFFF < run.2.2.2 ∧ run.2.2.2 + (run.2.1 - run.1) < 0x110000)) := by
  decide +kernel

theorem lowerChar_of_ascii {c : Char} (h : c.toNat < 128) : lowerChar c = [c.toLower] := by
  have hrest : caseRuns.tail.findSome? (lowerIn · c.toNat) = none := by
    refine List.findSome?_eq_none_iff.2 fun run hrun => if_neg ?_
    rintro ⟨hfirst, -⟩
    have hlarge := (target_of_mem_tail run hrun).1
    omega
  have hsmall : ∀ n < 128,
      Char.ofNat ((lowerIn asciiRun n).getD n) = (Char.ofNat n).toLower := by
    decide +kernel
  have hc := hsmall c.toNat h
  rw [Char.ofNat_toNat] at hc
  unfold lowerChar
  rw [if_neg (by omega), caseRuns_eq, List.findSome?_cons, hrest, ← hc]
  cases lowerIn asciiRun c.toNat with
  | none => rw [Option.getD_none, Char.ofNat_toNat]
  | some m => rfl

theorem toLower_of_not_ascii {c : Char} (h : 128 ≤ c.toNat) : c.toLower = c := by
  refine dif_neg ?_
  rintro ⟨-, hle⟩
  have hsmall : c.toNat ≤ 'Z'.toNat := hle
  exact absurd (Nat.le_trans h hsmall) (by decide)

theorem toNat_ofNat {n : Nat} (h : n.isValidChar) : (Char.ofNat n).toNat = n := by
  rw [Char.ofNat, dif_pos h]
  rfl

/-- The lower-case form of a character that is not ASCII is not all ASCII, or it is a `k`. -/
theorem lowerChar_of_not_ascii {c : Char} (h : 128 ≤ c.toNat) :
    ∃ d ∈ lowerChar c, d = 'k' ∨ 128 ≤ d.toNat := by
  unfold lowerChar
  split
  · exact ⟨'\u0307', by simp, .inr (by decide)⟩
  split
  · next n hn =>
    obtain ⟨⟨first, last, distance, target⟩, hmem, hlower⟩ := List.exists_of_findSome?_eq_some hn
    rw [lowerIn] at hlower
    split at hlower
    · next hin =>
      obtain ⟨hfirst, hlast, -⟩ := hin
      obtain rfl := Option.some.inj hlower
      refine ⟨_, List.mem_singleton_self _, ?_⟩
      rw [caseRuns_eq] at hmem
      rcases List.mem_cons.1 hmem with hascii | hmem
      · obtain ⟨rfl, rfl, rfl, rfl⟩ := hascii
        omega
      obtain ⟨-, hkelvin | ⟨htarget, hvalid⟩⟩ := target_of_mem_tail _ hmem
      · obtain ⟨rfl, rfl, rfl, rfl⟩ := hkelvin
        left
        have hc : c.toNat = 0x212A := Nat.le_antisymm hlast hfirst
        rw [hc]
      · right
        dsimp only at htarget hvalid
        rw [toNat_ofNat]
        · omega
        · unfold Nat.isValidChar
          omega
    · cases hlower
  · exact ⟨c, List.mem_singleton_self c, .inr h⟩

/-- A text of ASCII characters without a `k` is the lower-case form of nothing but its own spellings
in ASCII letters. -/
theorem lowercase_eq_iff {text lower : List Char} (h : ∀ d ∈ lower, d ≠ 'k' ∧ d.toNat < 128) :
    lowercase text = lower ↔ text.map Char.toLower = lower := by
  by_cases hascii : ∀ c ∈ text, c.toNat < 128
  · have hsame : lowercase text = text.map Char.toLower := by
      unfold lowercase
      induction text with
      | nil => rfl
      | cons c rest ih =>
        rw [List.flatMap_cons, List.map_cons, lowerChar_of_ascii (hascii c List.mem_cons_self),
          ih fun d hd => hascii d (List.mem_cons_of_mem c hd)]
        rfl
    rw [hsame]
  -- A character beyond ASCII keeps both sides from being equal: its lower-case form would have to
  -- be in `lower`, and so would the character itself.
  · have hbeyond : ∃ c ∈ text, 128 ≤ c.toNat := by
      simpa using hascii
    obtain ⟨c, hc, hbeyond⟩ := hbeyond
    constructor
    · rintro rfl
      obtain ⟨d, hd, hout⟩ := lowerChar_of_not_ascii hbeyond
      obtain ⟨hk, hsmall⟩ := h d (List.mem_flatMap.2 ⟨c, hc, hd⟩)
      rcases hout with rfl | hlarge
      · exact absurd rfl hk
      · omega
    · rintro rfl
      obtain ⟨-, hsmall⟩ := h c (List.mem_map.2 ⟨c, hc, toLower_of_not_ascii hbeyond⟩)
      omega

end Text

namespace Parameter

/-- The names of parameters are spelled in ASCII. -/
theorem lowercase_eq_key_iff {key : String} {parameter : Parameter} :
    String.ofList (Text.lowercase key.toList) = parameter.key ↔ key.toLower = parameter.key := by
  have hall : parameter.key.toList.all (fun d => d != 'k' && d.toNat < 128) = true := by
    cases parameter <;> decide
  have hascii : ∀ d ∈ parameter.key.toList, d ≠ 'k' ∧ d.toNat < 128 := by
    simpa using hall
  rw [← String.toList_inj, String.toList_ofList, Text.lowercase_eq_iff hascii, ← String.toList_map,
    String.toList_inj]
  rfl

theorem ofKey?_eq_some_iff {key : String} {parameter : Parameter} :
    ofKey? key = some parameter ↔ key.toLower = parameter.key := by
  rw [← lowercase_eq_key_iff]
  unfold ofKey?
  dsimp only
  split
  · next hserver =>
    rw [hserver]
    cases parameter <;> decide +kernel
  · next hserver =>
    split
    · next hbaseDir =>
      rw [hbaseDir]
      cases parameter <;> decide +kernel
    · next hbaseDir => cases parameter <;> simp [hserver, hbaseDir]

/-- The key is no spelling of a parameter. -/
def Unknown (key : String) : Prop :=
  ∀ parameter : Parameter, key.toLower ≠ parameter.key

theorem not_unknown_iff {key : String} :
    ¬ Unknown key ↔ ∃ parameter : Parameter, key.toLower = parameter.key := by
  simp [Unknown]

theorem ofKey?_eq_none_iff {key : String} : ofKey? key = none ↔ Unknown key := by
  rw [Option.eq_none_iff_forall_ne_some]
  exact forall_congr' fun parameter => not_congr ofKey?_eq_some_iff

/-- Some spelling of the parameter has the value. -/
def Given (parameters : TextMap) (parameter : Parameter) (value : String) : Prop :=
  ∃ key : String, parameters[key]? = some value ∧ key.toLower = parameter.key

/-- No two spellings of one parameter have different values. -/
def Consistent (parameters : TextMap) : Prop :=
  ∀ parameter value value', Given parameters parameter value → Given parameters parameter value' →
    value = value'

end Parameter

namespace ParameterValues

variable {entries : List (String × String)}

/-- If not all keys are known then one that is not is reported. -/
theorem foldlM_add_of_unknown (h : ∃ entry ∈ entries, Parameter.Unknown entry.1)
    (values : ParameterValues) : ∃ entry ∈ entries, Parameter.Unknown entry.1 ∧
      entries.foldlM add values = .error (.unknown entry.1) := by
  induction entries generalizing values with
  | nil => simp at h
  | cons entry rest ih =>
    rw [List.foldlM_cons]
    cases hkey : Parameter.ofKey? entry.1 with
    | none =>
      rw [add_of_unnamed hkey]
      exact ⟨entry, List.mem_cons_self, Parameter.ofKey?_eq_none_iff.1 hkey, rfl⟩
    | some named =>
      obtain ⟨next, hnext, -⟩ := add_of_named hkey values entry.2
      have hentry : ¬ Parameter.Unknown entry.1 := by
        rw [← Parameter.ofKey?_eq_none_iff, hkey]
        exact Option.some_ne_none named
      have hrest : ∃ entry ∈ rest, Parameter.Unknown entry.1 := by simpa [hentry] using h
      obtain ⟨unknown, hmem, hunknown, hfold⟩ := ih hrest next
      rw [hnext]
      exact ⟨unknown, List.mem_cons_of_mem _ hmem, hunknown, hfold⟩

/-- If all keys are known then every parameter that is given has a value in the end. -/
theorem foldlM_add_of_known (h : ∀ entry ∈ entries, ¬ Parameter.Unknown entry.1)
    (values : ParameterValues) : ∃ last, entries.foldlM add values = .ok last ∧
      ∀ parameter : Parameter, (values.value parameter ≠ none ∨
          ∃ entry ∈ entries, Parameter.ofKey? entry.1 = some parameter) →
        last.value parameter ≠ none := by
  induction entries generalizing values with
  | nil => exact ⟨values, rfl, by simp⟩
  | cons entry rest ih =>
    obtain ⟨named, hnamed⟩ := Option.ne_none_iff_exists'.1
      (mt Parameter.ofKey?_eq_none_iff.1 (h entry List.mem_cons_self))
    obtain ⟨next, hnext, hadded⟩ := add_of_named hnamed values entry.2
    obtain ⟨last, hlast, hgiven⟩ :=
      ih (fun later hlater => h later (List.mem_cons_of_mem _ hlater)) next
    rw [List.foldlM_cons, hnext]
    refine ⟨last, hlast, fun parameter hthere => hgiven parameter ?_⟩
    rw [hadded]
    rcases hthere with hthere | ⟨given, hmem, hkey⟩
    · left
      split
      · exact Option.some_ne_none _
      · exact hthere
    · rcases List.mem_cons.1 hmem with rfl | hmem
      · left
        rw [if_pos (Option.some.inj (hkey.symm.trans hnamed))]
        exact Option.some_ne_none _
      · exact .inr ⟨given, hmem, hkey⟩

theorem ext_value {values values' : ParameterValues}
    (h : ∀ parameter v, values.value parameter = some v ↔ values'.value parameter = some v) :
    values = values' := by
  have hserver : values.server = values'.server := Option.ext (h .server)
  have hbaseDir : values.baseDir = values'.baseDir := Option.ext (h .baseDir)
  cases values
  cases values'
  exact (mk.injEq ..).mpr ⟨hserver, hbaseDir⟩

section

variable {parameters : TextMap} (hconsistent : Parameter.Consistent parameters)
  (hentries : entries.Perm parameters.toList)
include hentries

theorem mem_entries_iff {key value : String} :
    (key, value) ∈ entries ↔ parameters[key]? = some value :=
  hentries.mem_iff.trans Std.ExtTreeMap.mem_toList_iff_getElem?_eq_some

theorem mem_of_mem_entries {key value : String} (h : (key, value) ∈ entries) : key ∈ parameters :=
  Std.ExtTreeMap.mem_iff_isSome_getElem?.2
    (Option.isSome_iff_exists.2 ⟨value, (mem_entries_iff hentries).1 h⟩)

/-- Unless all keys are known, one that is not is reported. -/
theorem foldlM_add_error (h : ∃ key, key ∈ parameters ∧ Parameter.Unknown key) :
    ∃ key, key ∈ parameters ∧ Parameter.Unknown key ∧
      entries.foldlM add {} = .error (.unknown key) := by
  obtain ⟨key, hkey, hunknown⟩ := h
  obtain ⟨value, hvalue⟩ :=
    Option.isSome_iff_exists.1 (Std.ExtTreeMap.mem_iff_isSome_getElem?.1 hkey)
  have hentry : (key, value) ∈ entries := (mem_entries_iff hentries).2 hvalue
  obtain ⟨⟨reported, _⟩, hmem, hreported, hfold⟩ :=
    foldlM_add_of_unknown ⟨(key, value), hentry, hunknown⟩ {}
  exact ⟨reported, mem_of_mem_entries hentries hmem, hreported, hfold⟩

include hconsistent

/-- If all keys are known, the values are those that are given. -/
theorem foldlM_add_ok (h : ¬ ∃ key, key ∈ parameters ∧ Parameter.Unknown key) :
    ∃ values, entries.foldlM add {} = .ok values ∧
      ∀ parameter v, values.value parameter = some v ↔ parameter.Given parameters v := by
  obtain ⟨values, hvalues, hthere⟩ := @foldlM_add_of_known entries
    (fun entry hentry hunknown => h ⟨entry.1, mem_of_mem_entries hentries hentry, hunknown⟩) {}
  have hgiven {parameter : Parameter} {v : String} (hv : values.value parameter = some v) :
      parameter.Given parameters v := by
    rcases value_of_foldlM hvalues hv with hnone | ⟨key, hkey, hnamed⟩
    · cases parameter <;> cases hnone
    · exact ⟨key, (mem_entries_iff hentries).1 hkey, Parameter.ofKey?_eq_some_iff.1 hnamed⟩
  refine ⟨values, hvalues, fun parameter v => ⟨hgiven, fun hv => ?_⟩⟩
  have hsome : values.value parameter ≠ none := by
    obtain ⟨key, hkey, hnamed⟩ := hv
    exact hthere parameter (.inr
      ⟨(key, v), (mem_entries_iff hentries).2 hkey, Parameter.ofKey?_eq_some_iff.2 hnamed⟩)
  obtain ⟨v', hv'⟩ := Option.ne_none_iff_exists'.1 hsome
  rw [hv', hconsistent parameter v v' hv (hgiven hv')]

/-- Any other order of the entries comes to the same. -/
theorem foldlM_add_perm
    (hunknown : ∀ key key', key ∈ parameters → key' ∈ parameters → Parameter.Unknown key →
      Parameter.Unknown key' → key = key')
    {entries' : List (String × String)} (hentries' : entries'.Perm parameters.toList) :
    entries'.foldlM add {} = entries.foldlM add {} := by
  by_cases hknown : ∃ key, key ∈ parameters ∧ Parameter.Unknown key
  · obtain ⟨key, hkey, hfirst, hfold⟩ := foldlM_add_error hentries hknown
    obtain ⟨key', hkey', hfirst', hfold'⟩ := foldlM_add_error hentries' hknown
    rw [hfold, hfold', hunknown key key' hkey hkey' hfirst hfirst']
  · obtain ⟨values, hfold, hvalues⟩ := foldlM_add_ok hconsistent hentries hknown
    obtain ⟨values', hfold', hvalues'⟩ := foldlM_add_ok hconsistent hentries' hknown
    have hsame : values' = values :=
      ext_value fun parameter v => (hvalues' parameter v).trans (hvalues parameter v).symm
    rw [hfold, hfold', hsame]

end
end ParameterValues

namespace Placement

variable {name : String} {entries : List (String × String)}

theorem ofParameters_ok_iff {p : Placement} :
    ofParameters name entries = .ok p ↔ read name entries = .ok p := by
  unfold ofParameters
  cases read name entries <;> simp

/-- Whatever order the parameters are visited in, they are read as a volume exactly if every key is
a spelling of a known one in ASCII letters, both values are given and are not empty, and neither
they nor the name holds a slash or means a directory itself or the one above. No other text has the
name of a parameter as its lower-case form. The volume is then the one with these values, and
otherwise the arguments are refused. A key that is not known is reported before anything else, and
if there is only one then nothing depends on the order, not even what the error says. -/
theorem parameters_read_in_any_order (name : String) {parameters : TextMap}
    (hconsistent : Parameter.Consistent parameters) (hentries : entries.Perm parameters.toList) :
    (∀ (key : String) (parameter : Parameter),
        String.ofList (Text.lowercase key.toList) = parameter.key ↔ key.toLower = parameter.key) ∧
      (∀ p, ofParameters name entries = .ok p ↔
        (∀ key, key ∈ parameters → ∃ parameter : Parameter, key.toLower = parameter.key) ∧
          Parameter.server.Given parameters p.server ∧ p.server ≠ "" ∧
          Parameter.baseDir.Given parameters p.baseDir ∧ p.baseDir ≠ "" ∧ p.name = name ∧
          ∀ text ∈ [p.server, p.baseDir, p.name],
            '/' ∉ text.toList ∧ text ≠ "." ∧ text ≠ "..") ∧
      (∀ e, ofParameters name entries = .error e → ∃ reason, e = .invalidArgument reason) ∧
      ((∃ key, key ∈ parameters ∧ Parameter.Unknown key) →
        ∃ key, key ∈ parameters ∧ Parameter.Unknown key ∧ ofParameters name entries =
          .error (.invalidArgument ("invalid parameter " ++ Text.quote key))) ∧
      ((∀ key key', key ∈ parameters → key' ∈ parameters → Parameter.Unknown key →
          Parameter.Unknown key' → key = key') →
        ∀ entries', entries'.Perm parameters.toList →
          ofParameters name entries' = ofParameters name entries) := by
  refine ⟨fun _ _ => Parameter.lowercase_eq_key_iff, fun p => ?_, fun e he => ?_,
    fun hunknown => ?_, fun hunknown entries' hentries' => ?_⟩
  · rw [ofParameters_ok_iff, read_eq_ok_iff]
    simp only [← Parameter.not_unknown_iff, checkName_eq_ok_iff]
    constructor
    · rintro ⟨values, hfold, ⟨hserver, hserver'⟩, ⟨hbaseDir, hbaseDir'⟩, hcheckBase, hcheckServer,
        hcheckName, hname⟩
      have hknown : ¬ ∃ key, key ∈ parameters ∧ Parameter.Unknown key := by
        intro hunknown
        obtain ⟨key, -, -, herror⟩ := ParameterValues.foldlM_add_error hentries hunknown
        rw [herror] at hfold
        cases hfold
      obtain ⟨values', hfold', hvalues⟩ :=
        ParameterValues.foldlM_add_ok hconsistent hentries hknown
      obtain rfl : values' = values := Except.ok.inj (hfold'.symm.trans hfold)
      refine ⟨fun key hkey hunknown => hknown ⟨key, hkey, hunknown⟩, (hvalues .server _).1 hserver,
        hserver', (hvalues .baseDir _).1 hbaseDir, hbaseDir', hname, ?_⟩
      simpa using ⟨hcheckServer, hcheckBase, hcheckName⟩
    · rintro ⟨hknown, hserver, hserver', hbaseDir, hbaseDir', hname, hcheck⟩
      obtain ⟨values, hfold, hvalues⟩ := ParameterValues.foldlM_add_ok hconsistent hentries
        fun ⟨key, hkey, hunknown⟩ => hknown key hkey hunknown
      exact ⟨values, hfold, ⟨(hvalues .server _).2 hserver, hserver'⟩,
        ⟨(hvalues .baseDir _).2 hbaseDir, hbaseDir'⟩, hcheck _ (by simp), hcheck _ (by simp),
        hcheck _ (by simp), hname⟩
  · unfold ofParameters at he
    split at he
    · cases he
    · exact ⟨_, (Except.error.inj he).symm⟩
  · obtain ⟨key, hkey, hunknown, hfold⟩ := ParameterValues.foldlM_add_error hentries hunknown
    refine ⟨key, hkey, hunknown, ?_⟩
    unfold ofParameters read
    rw [hfold]
    rfl
  · unfold ofParameters read
    rw [ParameterValues.foldlM_add_perm hconsistent hentries hunknown hentries']

namespace Sample

/-- One parameter under two spellings. -/
def spelledTwice : TextMap :=
  .ofList [("SERVER", "s1"), ("server", "s1"), ("Base-Dir", "base")]

/-- The spellings agree, so it does not matter which one comes last. -/
theorem two_spellings_are_read :
    let entries := [("server", "s1"), ("Base-Dir", "base"), ("SERVER", "s1")]
    Parameter.Consistent spelledTwice ∧ entries.Perm spelledTwice.toList ∧
      ofParameters "vol1" entries = .ok ⟨"s1", "base", "vol1"⟩ ∧
      ofParameters "vol1" spelledTwice.toList = .ok ⟨"s1", "base", "vol1"⟩ := by
  intro entries
  have hlist : spelledTwice.toList =
      [("Base-Dir", "base"), ("SERVER", "s1"), ("server", "s1")] := by
    decide +kernel
  have hperm : entries.Perm spelledTwice.toList := by
    rw [hlist]
    decide
  have hentry : ∀ entry ∈ spelledTwice.toList,
      entry.1.toLower = Parameter.server.key ∧ entry.2 = "s1" ∨
        entry.1.toLower = Parameter.baseDir.key ∧ entry.2 = "base" := by
    rw [hlist]
    decide +kernel
  have hvalue {key value : String} (h : spelledTwice[key]? = some value) :=
    hentry (key, value) (Std.ExtTreeMap.mem_toList_iff_getElem?_eq_some.2 h)
  have hconsistent : Parameter.Consistent spelledTwice := by
    rintro parameter value value' ⟨key, hkey, hnamed⟩ ⟨key', hkey', hnamed'⟩
    rcases hvalue hkey with ⟨hname, rfl⟩ | ⟨hname, rfl⟩ <;>
      rcases hvalue hkey' with ⟨hname', rfl⟩ | ⟨hname', rfl⟩
    · rfl
    · exact absurd ((hname.symm.trans hnamed).trans (hnamed'.symm.trans hname')) (by decide)
    · exact absurd ((hname.symm.trans hnamed).trans (hnamed'.symm.trans hname')) (by decide)
    · rfl
  have hknown : ∀ key, key ∈ spelledTwice → ∃ parameter : Parameter,
      key.toLower = parameter.key := by
    intro key hkey
    obtain ⟨value, hthere⟩ :=
      Option.isSome_iff_exists.1 (Std.ExtTreeMap.mem_iff_isSome_getElem?.1 hkey)
    rcases hvalue hthere with ⟨hname, -⟩ | ⟨hname, -⟩
    · exact ⟨.server, hname⟩
    · exact ⟨.baseDir, hname⟩
  obtain ⟨-, hread, -, -, horder⟩ := parameters_read_in_any_order "vol1" hconsistent hperm
  have hok : ofParameters "vol1" entries = .ok ⟨"s1", "base", "vol1"⟩ :=
    (hread _).2 ⟨hknown, ⟨"server", by decide +kernel, by decide +kernel⟩, by decide,
      ⟨"Base-Dir", by decide +kernel, by decide +kernel⟩, by decide, rfl, by decide⟩
  have hsame := horder (fun key _ hkey _ hunknown => absurd hunknown
    (Parameter.not_unknown_iff.2 (hknown key hkey))) spelledTwice.toList (.refl _)
  exact ⟨hconsistent, hperm, hok, hsame.trans hok⟩

end Sample
end Placement
end NfsProvisioner
