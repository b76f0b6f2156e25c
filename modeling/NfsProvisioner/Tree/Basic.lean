import Std.Data.ExtTreeMap

/-!
# A tree of files

A tree holds an entry (directory, file or symbolic link) at each of finitely many locations. The
root directory is always there, and whatever stands below a location stands in a directory. Two
trees with the same entry at every location are equal (`Tree.ext_get?`), so each operation is
described completely by what `get?` finds afterwards.

The operations here take locations and say what must hold for them to make sense; reading a path
and deciding whether an operation is allowed is the business of the modules beside this one.
-/
namespace NfsProvisioner

/-- Where an entry stands: the names on the way from the root directory to it. -/
abbrev Location := List String

theorem Location.child_ne_root (l : Location) (name : String) : l ++ [name] ≠ [] := by
  simp

theorem Location.child_not_above (l : Location) (name : String) : ¬ l ++ [name] <+: l := by
  intro h
  have hlength : l.length + 1 ≤ l.length := by simpa using h.length_le
  omega

inductive Entry where
  | directory
  | file (contents : String)
  /-- A symbolic link and the text of the path that it stands for. -/
  | link (target : String)
deriving DecidableEq, Repr

structure Tree where
  entries : Std.ExtTreeMap Location Entry
  root_directory : entries[([] : Location)]? = some .directory
  parent_directory : ∀ (l : Location) (name : String) (e : Entry),
    entries[l ++ [name]]? = some e → entries[l]? = some .directory

namespace Tree

/-- What stands at a location. -/
def get? (t : Tree) (l : Location) : Option Entry :=
  t.entries[l]?

theorem ext_get? {t u : Tree} (h : ∀ l, t.get? l = u.get? l) : t = u := by
  cases t
  cases u
  congr
  exact Std.ExtTreeMap.ext_getElem? h

instance : DecidableEq Tree := fun t u =>
  if h : t.entries = u.entries then
    .isTrue (ext_get? fun l => congrArg (·[l]?) h)
  else .isFalse fun heq => h (congrArg entries heq)

theorem get?_nil (t : Tree) : t.get? [] = some .directory :=
  t.root_directory

theorem get?_parent {t : Tree} {l : Location} {name : String} {e : Entry}
    (h : t.get? (l ++ [name]) = some e) : t.get? l = some .directory :=
  t.parent_directory l name e h

/-- Everything on the way to an entry is a directory. -/
theorem get?_of_append {t : Tree} {l r : Location} {e : Entry} (hr : r ≠ [])
    (h : t.get? (l ++ r) = some e) : t.get? l = some .directory := by
  induction r generalizing l with
  | nil => exact absurd rfl hr
  | cons name rest ih =>
    cases rest with
    | nil => exact get?_parent h
    | cons second others =>
      have h' : t.get? ((l ++ [name]) ++ (second :: others)) = some e := by simpa using h
      exact get?_parent (ih (by simp) h')

/-- Nothing stands below a location where nothing stands. -/
theorem get?_append_of_none {t : Tree} {l : Location} (h : t.get? l = none) (r : Location) :
    t.get? (l ++ r) = none := by
  cases r with
  | nil => simpa using h
  | cons name rest =>
    cases he : t.get? (l ++ name :: rest) with
    | none => rfl
    | some e => simp [get?_of_append (by simp) he] at h

/-- The tree that holds the root directory alone. -/
def bare : Tree where
  entries := Std.ExtTreeMap.ofList [(([] : Location), Entry.directory)] compare
  root_directory := by decide
  parent_directory l name e h := by simp at h

/-- The tree with a new entry in a directory. -/
def add (t : Tree) (l : Location) (name : String) (e : Entry)
    (directory : t.get? l = some .directory) (free : t.get? (l ++ [name]) = none) : Tree where
  entries := t.entries.insert (l ++ [name]) e
  root_directory := by
    rw [Std.ExtTreeMap.getElem?_insert]
    simpa using t.root_directory
  parent_directory k m e' h := by
    simp only [Std.ExtTreeMap.getElem?_insert, Std.LawfulEqOrd.compare_eq_iff_eq] at h ⊢
    split at h
    · next heq =>
      obtain ⟨rfl, rfl⟩ : l = k ∧ name = m := by simpa using heq
      rw [if_neg (by simp)]
      exact directory
    · have hk := t.parent_directory k m e' h
      split
      · next heq =>
        subst heq
        simp [get?] at free
        simp [free] at hk
      · exact hk

theorem get?_add {t : Tree} {l : Location} {name : String} {e : Entry}
    {directory : t.get? l = some .directory} {free : t.get? (l ++ [name]) = none} (k : Location) :
    (t.add l name e directory free).get? k = if k = l ++ [name] then some e else t.get? k := by
  simp only [add, get?, Std.ExtTreeMap.getElem?_insert, Std.LawfulEqOrd.compare_eq_iff_eq]
  simp [eq_comm]

/-- The tree with other contents in a file. -/
def setContents (t : Tree) (l : Location) (contents : String) {old : String}
    (file : t.get? l = some (.file old)) : Tree where
  entries := t.entries.insert l (.file contents)
  root_directory := by
    rw [Std.ExtTreeMap.getElem?_insert]
    split
    · next heq =>
      obtain rfl : l = [] := by simpa using heq
      simp [get?_nil] at file
    · exact t.root_directory
  parent_directory k m e h := by
    simp only [Std.ExtTreeMap.getElem?_insert, Std.LawfulEqOrd.compare_eq_iff_eq] at h ⊢
    have hk : t.get? k = some .directory := by
      split at h
      · next heq =>
        subst heq
        exact get?_parent file
      · exact t.parent_directory k m e h
    split
    · next heq =>
      subst heq
      simp [file] at hk
    · exact hk

theorem get?_setContents {t : Tree} {l : Location} {contents old : String}
    {file : t.get? l = some (.file old)} (k : Location) :
    (t.setContents l contents file).get? k =
      if k = l then some (.file contents) else t.get? k := by
  simp only [setContents, get?, Std.ExtTreeMap.getElem?_insert,
    Std.LawfulEqOrd.compare_eq_iff_eq]
  simp [eq_comm]

/-- The tree without a location and everything below it. -/
def prune (t : Tree) (l : Location) (below : l ≠ []) : Tree where
  entries := t.entries.filter fun k _ => !l.isPrefixOf k
  root_directory := by
    rw [Std.ExtTreeMap.getElem?_filter', t.root_directory]
    cases l with
    | nil => exact absurd rfl below
    | cons name rest => simp
  parent_directory k m e h := by
    rw [Std.ExtTreeMap.getElem?_filter', Option.filter_eq_some_iff] at h
    rw [Std.ExtTreeMap.getElem?_filter', t.parent_directory k m e h.1]
    simp only [Bool.not_eq_true', Bool.eq_false_iff, ne_eq, List.isPrefixOf_iff_prefix] at h
    simp only [Option.filter_some, ite_eq_left_iff, Bool.not_eq_true', Bool.not_eq_false,
      List.isPrefixOf_iff_prefix, reduceCtorEq, imp_false]
    exact fun hp => h.2 (hp.trans (List.prefix_append k [m]))

theorem get?_prune {t : Tree} {l : Location} {below : l ≠ []} (k : Location) :
    (t.prune l below).get? k = if l <+: k then none else t.get? k := by
  simp only [prune, get?, Std.ExtTreeMap.getElem?_filter']
  cases he : t.entries[k]? with
  | none => simp
  | some e =>
    by_cases hp : l <+: k
    · simp [hp, Option.filter_some, List.isPrefixOf_iff_prefix.2 hp]
    · have : l.isPrefixOf k = false := by
        simpa [Bool.eq_false_iff, List.isPrefixOf_iff_prefix] using hp
      simp [hp, Option.filter_some, this]

/-- The tree without anything below a location. -/
def clear (t : Tree) (l : Location) : Tree where
  entries := t.entries.filter fun k _ => k == l || !l.isPrefixOf k
  root_directory := by
    rw [Std.ExtTreeMap.getElem?_filter', t.root_directory]
    cases l <;> simp
  parent_directory k m e h := by
    rw [Std.ExtTreeMap.getElem?_filter', Option.filter_eq_some_iff] at h
    rw [Std.ExtTreeMap.getElem?_filter', t.parent_directory k m e h.1]
    simp only [Bool.or_eq_true, beq_iff_eq, Bool.not_eq_true', Bool.eq_false_iff, ne_eq,
      List.isPrefixOf_iff_prefix] at h
    simp only [Option.filter_some, ite_eq_left_iff, Bool.or_eq_true, beq_iff_eq,
      Bool.not_eq_true', Bool.eq_false_iff, ne_eq, List.isPrefixOf_iff_prefix, reduceCtorEq,
      imp_false, Decidable.not_not]
    rcases h.2 with rfl | hp
    · exact .inr (Location.child_not_above k m)
    · exact .inr fun hk => hp (hk.trans (List.prefix_append k [m]))

theorem get?_clear {t : Tree} {l : Location} (k : Location) :
    (t.clear l).get? k = if l <+: k ∧ k ≠ l then none else t.get? k := by
  simp only [clear, get?, Std.ExtTreeMap.getElem?_filter']
  cases he : t.entries[k]? with
  | none => simp
  | some e =>
    by_cases hp : l.isPrefixOf k = true <;> by_cases hk : k = l <;>
      simp_all [Option.filter_some, ← List.isPrefixOf_iff_prefix]

/-- Whether nothing stands below a location. -/
def isBare (t : Tree) (l : Location) : Bool :=
  t.entries.keys.all fun k => k == l || !l.isPrefixOf k

theorem isBare_iff {t : Tree} {l : Location} :
    t.isBare l = true ↔ ∀ r, r ≠ [] → t.get? (l ++ r) = none := by
  simp only [isBare, List.all_eq_true, Std.ExtTreeMap.mem_keys,
    Std.ExtTreeMap.mem_iff_isSome_getElem?]
  constructor
  · intro h r hr
    cases he : t.get? (l ++ r) with
    | none => rfl
    | some e =>
      have := h (l ++ r) (by simpa [get?] using congrArg Option.isSome he)
      simp [List.isPrefixOf_iff_prefix.2 (List.prefix_append l r), hr] at this
  · intro h k hk
    cases hp : l.isPrefixOf k with
    | false => simp
    | true =>
      obtain ⟨r, rfl⟩ := List.isPrefixOf_iff_prefix.1 hp
      by_cases hr : r = []
      · simp [hr]
      · have := h r hr
        simp only [get?] at this
        simp [this] at hk

/-- Where the entry at a location stands once everything at and below `source` has been moved to
`target`. -/
def rebase (source target l : Location) : Location :=
  if source.isPrefixOf l then target ++ l.drop source.length else l

theorem rebase_append (source target r : Location) :
    rebase source target (source ++ r) = target ++ r := by
  simp [rebase, List.isPrefixOf_iff_prefix.2 (List.prefix_append source r)]

theorem rebase_of_not_below {source l : Location} (h : ¬ source <+: l) (target : Location) :
    rebase source target l = l := by
  simp [rebase, List.isPrefixOf_iff_prefix, h]

/-- The entries after a move. -/
def movedEntries (t : Tree) (source target : Location) : Std.ExtTreeMap Location Entry :=
  Std.ExtTreeMap.ofList (t.entries.toList.map fun (l, e) => (rebase source target l, e))

/-- A move onto a free location keeps different entries apart. -/
theorem rebase_inj {t : Tree} {source target : Location} (free : t.get? target = none)
    {k l : Location} (hk : (t.get? k).isSome) (hl : (t.get? l).isSome)
    (h : rebase source target k = rebase source target l) : k = l := by
  have hfree : ∀ r, ¬ (t.get? (target ++ r)).isSome := fun r => by
    simp [get?_append_of_none free r]
  by_cases hks : source <+: k <;> by_cases hls : source <+: l
  · obtain ⟨r, rfl⟩ := hks
    obtain ⟨s, rfl⟩ := hls
    simpa [rebase_append] using h
  · obtain ⟨r, rfl⟩ := hks
    rw [rebase_append, rebase_of_not_below hls] at h
    exact absurd (h ▸ hl) (hfree r)
  · obtain ⟨r, rfl⟩ := hls
    rw [rebase_append, rebase_of_not_below hks] at h
    exact absurd (h ▸ hk) (hfree r)
  · rwa [rebase_of_not_below hks, rebase_of_not_below hls] at h

theorem getElem?_movedEntries {t : Tree} {source target : Location} (free : t.get? target = none)
    (k : Location) (e : Entry) :
    (t.movedEntries source target)[k]? = some e ↔
      ∃ l, t.get? l = some e ∧ rebase source target l = k := by
  have distinct : (t.entries.toList.map fun (x : Location × Entry) =>
      (rebase source target x.1, x.2)).Pairwise fun a b => ¬ compare a.1 b.1 = .eq := by
    rw [List.pairwise_map]
    refine t.entries.distinct_keys_toList.imp_of_mem fun {a b} ha hb hab => ?_
    simp only [Std.LawfulEqOrd.compare_eq_iff_eq] at hab ⊢
    have ha' := Std.ExtTreeMap.mem_toList_iff_getElem?_eq_some.1 ha
    have hb' := Std.ExtTreeMap.mem_toList_iff_getElem?_eq_some.1 hb
    exact fun h => hab (rebase_inj free (by simp [get?, ha']) (by simp [get?, hb']) h)
  constructor
  · intro h
    by_cases hmem : k ∈ (t.entries.toList.map fun (x : Location × Entry) =>
        (rebase source target x.1, x.2)).map Prod.fst
    · obtain ⟨⟨k', e'⟩, hx, rfl⟩ := List.mem_map.1 hmem
      have := Std.ExtTreeMap.getElem?_ofList_of_mem (Std.ReflCmp.compare_self (a := k')) distinct hx
      have he : e' = e := by
        have h2 : some e' = some e := this.symm.trans h
        simpa using h2
      obtain ⟨⟨l, e''⟩, hl, heq⟩ := List.mem_map.1 hx
      simp only [Prod.mk.injEq] at heq
      refine ⟨l, ?_, heq.1⟩
      rw [← he, ← heq.2]
      exact Std.ExtTreeMap.mem_toList_iff_getElem?_eq_some.1 hl
    · have missing : (t.movedEntries source target)[k]? = none :=
        Std.ExtTreeMap.getElem?_ofList_of_contains_eq_false
          (by simpa [List.contains_iff_mem] using hmem)
      exact absurd (missing.symm.trans h) (by simp)
  · rintro ⟨l, hl, rfl⟩
    exact Std.ExtTreeMap.getElem?_ofList_of_mem (by simp) distinct
      (List.mem_map.2 ⟨(l, e), Std.ExtTreeMap.mem_toList_iff_getElem?_eq_some.2 hl, rfl⟩)

/-- The tree after everything at and below `source` has been moved into the directory `l` under the
name `name`. -/
def move (t : Tree) (source l : Location) (name : String)
    (directory : t.get? l = some .directory) (free : t.get? (l ++ [name]) = none)
    (apart : ¬ source <+: l ++ [name]) : Tree where
  entries := t.movedEntries source (l ++ [name])
  root_directory := by
    rw [getElem?_movedEntries free]
    refine ⟨[], t.get?_nil, rebase_of_not_below ?_ _⟩
    intro h
    rw [List.prefix_nil] at h
    exact apart (h ▸ List.nil_prefix)
  parent_directory k m e h := by
    rw [getElem?_movedEntries free] at h ⊢
    obtain ⟨j, hj, hjk⟩ := h
    by_cases hs : source <+: j
    · obtain ⟨r, rfl⟩ := hs
      rw [rebase_append] at hjk
      rcases List.eq_nil_or_concat r with rfl | ⟨r', m', rfl⟩
      · obtain ⟨rfl, rfl⟩ : l = k ∧ name = m := by simpa using hjk
        exact ⟨l, directory,
          rebase_of_not_below (fun hp => apart (hp.trans (List.prefix_append _ _))) _⟩
      · have hk : l ++ [name] ++ r' = k := by
          rw [List.concat_eq_append, ← List.append_assoc] at hjk
          exact (List.append_inj' hjk rfl).1
        refine ⟨source ++ r', ?_, ?_⟩
        · rw [List.concat_eq_append, ← List.append_assoc] at hj
          exact get?_parent hj
        · rw [rebase_append, hk]
    · rw [rebase_of_not_below hs] at hjk
      subst hjk
      exact ⟨k, get?_parent hj,
        rebase_of_not_below (fun hp => hs (hp.trans (List.prefix_append _ _))) _⟩

theorem get?_move {t : Tree} {source l : Location} {name : String}
    {directory : t.get? l = some .directory} {free : t.get? (l ++ [name]) = none}
    {apart : ¬ source <+: l ++ [name]} (k : Location) (e : Entry) :
    (t.move source l name directory free apart).get? k = some e ↔
      ∃ j, t.get? j = some e ∧ rebase source (l ++ [name]) j = k :=
  getElem?_movedEntries free k e

end Tree
end NfsProvisioner
