import NfsProvisioner.Tree.Operations

/-!
# Ways without symbolic links

Where a path leads can be told from its names alone if no symbolic link stands on its way: each name
leads one step down and `..` one step up. The way of a path is every location at which its walk
stands, the first and the last included. If the way is open, that is, holds directories and nothing
else, then the walk succeeds exactly when all of it is there and the names are not too long.
-/
namespace NfsProvisioner

namespace Path

/-- Where a name leads from a directory. -/
def enter (l : Location) (name : String) : Location :=
  if name = ".." then l.dropLast else l ++ [name]

/-- Every location on the way from `l` along some names. -/
def course (l : Location) : List String → List Location
  | [] => [l]
  | name :: rest => l :: course (enter l name) rest

/-- Every location on the way of a path. -/
def way (cwd : Location) (p : Path) : List Location :=
  course (p.start cwd) p.names

/-- Where a path leads if no symbolic link stands on its way. -/
def location (cwd : Location) (p : Path) : Location :=
  p.names.foldl enter (p.start cwd)

/-- No name of the path is one that reading a path drops. -/
def Normal (p : Path) : Prop :=
  ∀ name ∈ p.names, isName name = true

/-- The host takes the path for an operation, whatever files there are. -/
structure Usable (p : Path) : Prop where
  text : Tree.checkOperand p.text = .ok ()
  names : ∀ name ∈ p.names, name.utf8ByteSize ≤ Tree.maxNameBytes

theorem usable_child_iff {q : Path} {name : String} :
    (q.child name).Usable ↔ Tree.checkOperand (q.child name).text = .ok () ∧
      (∀ m ∈ q.names, m.utf8ByteSize ≤ Tree.maxNameBytes) ∧
      name.utf8ByteSize ≤ Tree.maxNameBytes := by
  constructor
  · exact fun ⟨htext, hnames⟩ => ⟨htext, fun m hm => hnames m (List.mem_append_left _ hm),
      hnames name (List.mem_append_right _ (List.mem_singleton_self name))⟩
  · rintro ⟨htext, hnames, hname⟩
    refine ⟨htext, fun m hm => ?_⟩
    rcases List.mem_append.1 hm with hm | hm
    · exact hnames m hm
    · rw [List.mem_singleton.1 hm]
      exact hname

theorem mem_course_self (l : Location) (names : List String) : l ∈ course l names := by
  cases names <;> simp [course]

theorem course_cons {name : String} (h : name ≠ "..") (l : Location) (rest : List String) :
    course l (name :: rest) = l :: course (l ++ [name]) rest := by
  rw [course, enter, if_neg h]

theorem foldl_mem_course (l : Location) (names : List String) :
    names.foldl enter l ∈ course l names := by
  induction names generalizing l with
  | nil => exact List.mem_singleton_self l
  | cons name rest ih => exact List.mem_cons_of_mem l (ih (enter l name))

theorem foldl_enter {names : List String} (h : ".." ∉ names) (l : Location) :
    names.foldl enter l = l ++ names := by
  induction names generalizing l with
  | nil => simp
  | cons name rest ih =>
    have hname : name ≠ ".." := fun heq => h (heq ▸ List.mem_cons_self)
    have hrest : ".." ∉ rest := fun hmem => h (List.mem_cons_of_mem name hmem)
    rw [List.foldl_cons, ih hrest, enter, if_neg hname]
    simp

theorem course_concat (l : Location) (names : List String) (name : String) :
    course l (names ++ [name]) = course l names ++ [enter (names.foldl enter l) name] := by
  induction names generalizing l with
  | nil => rfl
  | cons first rest ih => simp [course, ih]

variable {cwd : Location} {p : Path} {name : String}

theorem start_mem_way : p.start cwd ∈ p.way cwd :=
  mem_course_self _ _

theorem location_mem_way : p.location cwd ∈ p.way cwd :=
  foldl_mem_course _ _

/-- Without `..` a path leads where its names say. -/
theorem location_eq (h : ".." ∉ p.names) : p.location cwd = p.start cwd ++ p.names :=
  foldl_enter h _

theorem way_child : (p.child name).way cwd = p.way cwd ++ [enter (p.location cwd) name] :=
  course_concat _ _ _

theorem location_child (h : name ≠ "..") :
    (p.child name).location cwd = p.location cwd ++ [name] := by
  have hfold : (p.child name).location cwd = enter (p.location cwd) name := by
    simp [location, child, start]
  rw [hfold, enter, if_neg h]

theorem mem_way_child (h : name ≠ "..") {l : Location} :
    l ∈ (p.child name).way cwd ↔ l ∈ p.way cwd ∨ l = p.location cwd ++ [name] := by
  rw [way_child, enter, if_neg h, List.mem_append, List.mem_singleton]

theorem Normal.child (h : p.Normal) (hname : isName name = true) : (p.child name).Normal := by
  intro m hm
  rcases List.mem_append.1 hm with hm | hm
  · exact h m hm
  · rw [List.mem_singleton.1 hm]
    exact hname

theorem not_up_mem_child (h : ".." ∉ p.names) (hname : name ≠ "..") :
    ".." ∉ (p.child name).names := by
  rw [child, List.mem_append, List.mem_singleton]
  exact not_or.2 ⟨h, hname.symm⟩

theorem Normal.last_ne_empty (h : (p.child name).Normal) : name ≠ "" := by
  rintro rfl
  exact absurd (h "" (List.mem_append_right _ (List.mem_singleton_self ""))) (by decide)

/-- Without `..` a way only leads down. -/
theorem prefix_of_mem_course {l k : Location} {names : List String} (h : ".." ∉ names)
    (hk : k ∈ course l names) : l <+: k ∧ k <+: names.foldl enter l := by
  induction names generalizing l k with
  | nil =>
    obtain rfl : k = l := List.mem_singleton.1 hk
    exact ⟨List.prefix_refl k, List.prefix_refl k⟩
  | cons name rest ih =>
    have hname : name ≠ ".." := fun heq => h (heq ▸ List.mem_cons_self)
    have hrest : ".." ∉ rest := fun hmem => h (List.mem_cons_of_mem name hmem)
    have hstep : l <+: enter l name := by
      rw [enter, if_neg hname]
      exact List.prefix_append l [name]
    have hend := (ih hrest (foldl_mem_course (enter l name) rest)).1
    rcases List.mem_cons.1 hk with rfl | hk
    · exact ⟨List.prefix_refl k, hstep.trans hend⟩
    · obtain ⟨hlow, hhigh⟩ := ih hrest hk
      exact ⟨hstep.trans hlow, hhigh⟩

theorem prefix_of_mem_way (h : ".." ∉ p.names) {l : Location} (hl : l ∈ p.way cwd) :
    l <+: p.location cwd :=
  (prefix_of_mem_course h hl).2

/-- Without `..` a way does not lead below its own end. -/
theorem not_below_of_mem_way (h : ".." ∉ p.names) {l r : Location} (hl : l ∈ p.way cwd)
    (hr : r ≠ []) : ¬ p.location cwd ++ r <+: l := by
  intro hin
  have hlength := (hin.trans (prefix_of_mem_way h hl)).length_le
  have hpos := List.length_pos_iff.2 hr
  rw [List.length_append] at hlength
  omega

/-- The path `p` leads to a directory on the way of `q`, or to where `q` itself leads. -/
structure Above (p q : Path) : Prop where
  anchor : p.anchor = q.anchor
  trailing : p.trailing = false
  names : p.names <+: q.names

theorem mem_course_append {l k : Location} {names : List String} (h : k ∈ course l names)
    (more : List String) : k ∈ course l (names ++ more) := by
  induction names generalizing l with
  | nil =>
    rw [List.mem_singleton.1 h]
    exact mem_course_self _ _
  | cons name rest ih =>
    rcases List.mem_cons.1 h with rfl | h
    · exact List.mem_cons_self
    · exact List.mem_cons_of_mem l (ih h)

theorem Above.start_eq {q : Path} (h : p.Above q) : p.start cwd = q.start cwd := by
  rw [start, start, h.anchor]

theorem Above.mem_way {q : Path} (h : p.Above q) {l : Location} (hl : l ∈ p.way cwd) :
    l ∈ q.way cwd := by
  obtain ⟨more, hmore⟩ := h.names
  rw [way, ← hmore, ← h.start_eq]
  exact mem_course_append hl more

theorem Above.normal {q : Path} (h : p.Above q) (hq : q.Normal) : p.Normal :=
  fun m hm => hq m (h.names.mem hm)

theorem Above.not_up_mem {q : Path} (h : p.Above q) (hq : ".." ∉ q.names) : ".." ∉ p.names :=
  fun hmem => hq (h.names.mem hmem)

theorem Above.trans {q r : Path} (h : p.Above q) (h' : q.Above r) : p.Above r :=
  ⟨h.anchor.trans h'.anchor, h.trailing, h.names.trans h'.names⟩

/-- Only a path without names has none above it. -/
theorem eq_child_of_trailing (htrailing : p.trailing = false) (hnames : p.names ≠ []) :
    ∃ q : Path, ∃ name, q.trailing = false ∧ p = q.child name := by
  refine ⟨⟨p.anchor, p.names.dropLast, false⟩, p.names.getLast hnames, rfl, ?_⟩
  rw [child, List.dropLast_concat_getLast hnames, ← htrailing]

/-- A path is built from one without names, name by name. -/
theorem child_induction {motive : (p : Path) → p.trailing = false → Prop}
    (nameless : ∀ anchor, motive ⟨anchor, [], false⟩ rfl)
    (child : ∀ q name (h : q.trailing = false), motive q h → motive (q.child name) rfl)
    (p : Path) (h : p.trailing = false) : motive p h := by
  obtain ⟨anchor, names, trailing⟩ := p
  obtain rfl : trailing = false := h
  rw [← List.reverse_reverse names]
  generalize names.reverse = above
  induction above with
  | nil => exact nameless anchor
  | cons name above ih =>
    rw [List.reverse_cons]
    exact child _ name rfl ih

theorem above_of_child_above {q : Path} {last : String} (h : (p.child name).Above (q.child last))
    (htrailing : p.trailing = false) : p.Above q := by
  have hnames : p.names <+: q.names ++ [last] := (List.prefix_append _ _).trans h.names
  have hlength := h.names.length_le
  simp only [child, List.length_append, List.length_singleton] at hlength
  exact ⟨h.anchor, htrailing,
    List.prefix_of_prefix_length_le hnames (List.prefix_append _ _) (by omega)⟩

/-- What leads to a directory on the way of an entry is the entry or leads to what is above it. -/
theorem Above.of_child {q : Path} (h : p.Above (q.child name)) : p = q.child name ∨ p.Above q := by
  rcases List.prefix_concat_iff.1 h.names with hnames | hnames
  · left
    obtain ⟨anchor, names, trailing⟩ := p
    obtain rfl : anchor = q.anchor := h.anchor
    obtain rfl : trailing = false := h.trailing
    rw [child, ← hnames]
  · exact .inr ⟨h.anchor, h.trailing, hnames⟩

end Path

namespace Tree

/-- Where nothing but a directory stands, if anything does. -/
def Open (t : Tree) (l : Location) : Prop :=
  t.get? l = none ∨ t.get? l = some .directory

instance (t : Tree) (l : Location) : Decidable (t.Open l) :=
  inferInstanceAs (Decidable (_ ∨ _))

/-- Every location on the way of a path is open. -/
def Clear (t : Tree) (cwd : Location) (p : Path) : Prop :=
  ∀ l ∈ p.way cwd, t.Open l

/-- Where no symbolic link stands. -/
def Linkless (t : Tree) (l : Location) : Prop :=
  ∀ target, t.get? l ≠ some (.link target)

/-- No symbolic link stands on the way of a path. -/
def Unlinked (t : Tree) (cwd : Location) (p : Path) : Prop :=
  ∀ l ∈ p.way cwd, t.Linkless l

/-- Every location on the way of a path is a directory. -/
def Passable (t : Tree) (cwd : Location) (p : Path) : Prop :=
  ∀ l ∈ p.way cwd, t.get? l = some .directory

variable {t : Tree} {cwd : Location} {p q : Path} {name : String}

theorem Open.linkless {l : Location} (h : t.Open l) : t.Linkless l := by
  intro target heq
  rcases h with hnone | hthere
  · rw [hnone] at heq
    cases heq
  · rw [hthere] at heq
    cases heq

theorem get?_bare {l : Location} (h : l ≠ []) : bare.get? l = none := by
  have hnil : bare.get? l = none ∨ l = [] := by
    unfold get? bare
    simp [h]
  exact hnil.resolve_right h

theorem open_bare (l : Location) : bare.Open l := by
  by_cases hl : l = []
  · rw [hl]
    exact .inr (get?_nil bare)
  · exact .inl (get?_bare hl)

theorem Clear.unlinked (h : t.Clear cwd p) : t.Unlinked cwd p :=
  fun l hl => (h l hl).linkless

theorem Passable.clear (h : t.Passable cwd p) : t.Clear cwd p :=
  fun l hl => .inr (h l hl)

theorem Passable.unlinked (h : t.Passable cwd p) : t.Unlinked cwd p :=
  h.clear.unlinked

theorem passable_child_iff (h : name ≠ "..") :
    t.Passable cwd (q.child name) ↔
      t.Passable cwd q ∧ t.get? (q.location cwd ++ [name]) = some .directory := by
  constructor
  · intro hpass
    exact ⟨fun l hl => hpass l ((Path.mem_way_child h).2 (.inl hl)),
      hpass _ ((Path.mem_way_child h).2 (.inr rfl))⟩
  · rintro ⟨hpass, hthere⟩ l hl
    rcases (Path.mem_way_child h).1 hl with hl | rfl
    · exact hpass l hl
    · exact hthere

theorem Clear.of_child (h : t.Clear cwd (q.child name)) : t.Clear cwd q := by
  intro l hl
  apply h l
  rw [Path.way_child]
  exact List.mem_append_left _ hl

theorem Unlinked.of_child (h : t.Unlinked cwd (q.child name)) : t.Unlinked cwd q := by
  intro l hl
  apply h l
  rw [Path.way_child]
  exact List.mem_append_left _ hl

theorem Unlinked.above (h : t.Unlinked cwd q) (hp : p.Above q) : t.Unlinked cwd p :=
  fun l hl => h l (hp.mem_way hl)

theorem Passable.above (h : t.Passable cwd q) (hp : p.Above q) : t.Passable cwd p :=
  fun l hl => h l (hp.mem_way hl)

theorem get?_dropLast {l : Location} (h : t.get? l = some .directory) :
    t.get? l.dropLast = some .directory := by
  rcases List.eq_nil_or_concat l with rfl | ⟨above, name, rfl⟩
  · exact h
  · rw [List.concat_eq_append] at h ⊢
    rw [List.dropLast_concat]
    exact get?_parent h

theorem ne_of_isName {name : String} (h : Path.isName name = true) :
    ¬ (name = "" ∨ name = ".") := by
  simp only [Path.isName, Bool.and_eq_true, bne_iff_ne, ne_eq] at h
  rintro (rfl | rfl)
  · exact h.1 rfl
  · exact h.2 rfl

/-- A walk along a course without symbolic links ends in a directory exactly if all of the course is
there. -/
theorem walkWith_directory_iff {follow : Location → List String → Except Fault Location}
    {l k : Location} {names : List String} (hnames : ∀ name ∈ names, Path.isName name = true)
    (hlinks : ∀ k ∈ Path.course l names, t.Linkless k) :
    (walkWith t .present follow l names = .ok k ∧ t.get? k = some .directory) ↔
      k = names.foldl Path.enter l ∧
        (∀ name ∈ names, name.utf8ByteSize ≤ maxNameBytes) ∧
        ∀ k ∈ Path.course l names, t.get? k = some .directory := by
  induction names generalizing l with
  | nil =>
    simp only [walkWith, Except.ok.injEq, Path.course, List.mem_singleton, forall_eq,
      List.foldl_nil, List.not_mem_nil, false_imp_iff, implies_true, true_and]
    constructor
    · rintro ⟨rfl, hk⟩
      exact ⟨rfl, hk⟩
    · rintro ⟨rfl, hk⟩
      exact ⟨rfl, hk⟩
  | cons name rest ih =>
    have hname := ne_of_isName (hnames name List.mem_cons_self)
    have hrest := @ih (Path.enter l name) (fun m hm => hnames m (List.mem_cons_of_mem name hm))
      (fun m hm => hlinks m (List.mem_cons_of_mem l hm))
    rw [walkWith]
    by_cases hl : t.get? l = some .directory
    · rw [if_neg (Decidable.not_not.2 hl), if_neg hname]
      by_cases hup : name = ".."
      · subst hup
        have hshort : "..".utf8ByteSize ≤ maxNameBytes := by decide
        rw [if_pos rfl]
        rw [Path.enter, if_pos rfl] at hrest
        rw [hrest]
        simp [Path.course, Path.enter, hl, hshort]
      · rw [if_neg hup]
        by_cases hlong : maxNameBytes < name.utf8ByteSize
        · rw [if_pos hlong]
          constructor
          · rintro ⟨h, -⟩
            cases h
          · rintro ⟨-, hshort, -⟩
            have := hshort name List.mem_cons_self
            omega
        · rw [if_neg hlong]
          have henter : Path.enter l name = l ++ [name] := if_neg hup
          rw [henter] at hrest
          have hself : l ++ [name] ∈ Path.course l (name :: rest) := by
            rw [Path.course, henter]
            exact List.mem_cons_of_mem l (Path.mem_course_self _ _)
          have hshort : name.utf8ByteSize ≤ maxNameBytes := by omega
          cases hthere : t.get? (l ++ [name]) with
          | none =>
            constructor
            · rintro ⟨h, -⟩
              simp at h
            · rintro ⟨-, -, hall⟩
              have := hall _ hself
              rw [hthere] at this
              cases this
          | some e =>
            cases e with
            | link target => exact absurd hthere (hlinks _ hself target)
            | directory | file =>
              dsimp only
              rw [hrest]
              simp [Path.course, henter, hl, hshort]
    · rw [if_pos hl]
      constructor
      · rintro ⟨h, -⟩
        cases h
      · rintro ⟨-, -, hall⟩
        exact absurd (hall l (Path.mem_course_self _ _)) hl

theorem walk_directory_iff {links : Nat} {l k : Location} {names : List String}
    (hnames : ∀ name ∈ names, Path.isName name = true)
    (hlinks : ∀ k ∈ Path.course l names, t.Linkless k) :
    (t.walk .present links l names = .ok k ∧ t.get? k = some .directory) ↔
      k = names.foldl Path.enter l ∧
        (∀ name ∈ names, name.utf8ByteSize ≤ maxNameBytes) ∧
        ∀ k ∈ Path.course l names, t.get? k = some .directory := by
  cases links <;> exact walkWith_directory_iff hnames hlinks

/-- If some of an open course is missing, that is what a walk fails of, wherever it would go on
to. -/
theorem walkWith_missing {follow : Location → List String → Except Fault Location}
    {l : Location} {names more : List String} (hnames : ∀ name ∈ names, Path.isName name = true)
    (hopen : ∀ k ∈ Path.course l names, t.Open k)
    (hshort : ∀ name ∈ names, name.utf8ByteSize ≤ maxNameBytes)
    (hl : t.get? l = some .directory)
    (hmissing : ¬ ∀ k ∈ Path.course l names, t.get? k = some .directory) :
    walkWith t .present follow l (names ++ more) = .error .notFound := by
  induction names generalizing l with
  | nil =>
    refine absurd (fun k hk => ?_) hmissing
    rw [List.mem_singleton.1 hk]
    exact hl
  | cons name rest ih =>
    have hname := ne_of_isName (hnames name List.mem_cons_self)
    have hlong : ¬ maxNameBytes < name.utf8ByteSize :=
      Nat.not_lt.2 (hshort name List.mem_cons_self)
    have hmissing' : ¬ ∀ k ∈ Path.course (Path.enter l name) rest,
        t.get? k = some .directory := by
      intro hall
      apply hmissing
      intro k hk
      rcases List.mem_cons.1 hk with rfl | hk
      · exact hl
      · exact hall k hk
    have hrest := @ih (Path.enter l name) (fun m hm => hnames m (List.mem_cons_of_mem name hm))
      (fun m hm => hopen m (List.mem_cons_of_mem l hm))
      (fun m hm => hshort m (List.mem_cons_of_mem name hm))
    rw [List.cons_append, walkWith, if_neg (Decidable.not_not.2 hl), if_neg hname]
    by_cases hup : name = ".."
    · rw [if_pos hup]
      rw [Path.enter, if_pos hup] at hrest hmissing'
      exact hrest (get?_dropLast hl) hmissing'
    · rw [if_neg hup, if_neg hlong]
      rw [Path.enter, if_neg hup] at hrest hmissing'
      have hself : l ++ [name] ∈ Path.course l (name :: rest) := by
        rw [Path.course, Path.enter, if_neg hup]
        exact List.mem_cons_of_mem l (Path.mem_course_self _ _)
      rcases hopen _ hself with hnone | hthere
      · rw [hnone]
        rfl
      · rw [hthere]
        exact hrest hthere hmissing'

theorem walk_missing {links : Nat} {l : Location} {names more : List String}
    (hnames : ∀ name ∈ names, Path.isName name = true)
    (hopen : ∀ k ∈ Path.course l names, t.Open k)
    (hshort : ∀ name ∈ names, name.utf8ByteSize ≤ maxNameBytes)
    (hl : t.get? l = some .directory)
    (hmissing : ¬ ∀ k ∈ Path.course l names, t.get? k = some .directory) :
    t.walk .present links l (names ++ more) = .error .notFound := by
  cases links <;> exact walkWith_missing hnames hopen hshort hl hmissing

/-- Where the path of an entry puts its name, by where the path of the directory leads. -/
theorem slot_child :
    t.slot cwd (q.child name) = (do
      checkOperand (q.child name).text
      let l ← t.walk .present maxLinks (q.start cwd) q.names
      if directory : t.get? l = some .directory then
        if name = ".." then return .ancestor l.dropLast
        else if maxNameBytes < name.utf8ByteSize then throw .nameTooLong
        else return .entry l directory name
      else throw .notDirectory) := by
  have hdrop : (q.child name).names.dropLast = q.names := List.dropLast_concat
  have hlast : (q.child name).names.getLast? = some name := List.getLast?_concat
  have hstart : (q.child name).start cwd = q.start cwd := rfl
  rw [slot, hdrop, hlast, hstart]

/-- The directory above a name is not found if some of an open way above that is missing. -/
theorem slot_child_missing (hp : p.Normal) (hclear : t.Clear cwd p)
    (hshort : ∀ m ∈ p.names, m.utf8ByteSize ≤ maxNameBytes) (hanchor : p.anchor = q.anchor)
    (hnames : p.names <+: q.names) (htext : checkOperand (q.child name).text = .ok ())
    (hstart : t.get? (p.start cwd) = some .directory) (hmissing : ¬ t.Passable cwd p) :
    t.slot cwd (q.child name) = .error .notFound := by
  obtain ⟨more, hmore⟩ := hnames
  have hsame : q.start cwd = p.start cwd := by
    rw [Path.start, Path.start, hanchor]
  have hwalk : t.walk .present maxLinks (q.start cwd) q.names = .error .notFound := by
    rw [← hmore, hsame]
    exact walk_missing hp hclear hshort hstart hmissing
  rw [slot_child, htext]
  simp only [bind, Except.bind, hwalk]

/-- On a way without symbolic links nothing but the entry itself is found. -/
theorem slot_child_inv (hq : q.Normal) (hway : t.Unlinked cwd q) {s : Slot t}
    (h : t.slot cwd (q.child name) = .ok s) :
    (q.child name).Usable ∧ ∃ hpass : t.Passable cwd q,
      s = if name = ".." then .ancestor (q.location cwd).dropLast
        else .entry (q.location cwd) (hpass _ Path.location_mem_way) name := by
  rw [slot_child] at h
  cases htext : checkOperand (q.child name).text with
  | error fault =>
    rw [htext] at h
    cases h
  | ok =>
    cases hwalk : t.walk .present maxLinks (q.start cwd) q.names with
    | error fault =>
      rw [htext, hwalk] at h
      cases h
    | ok l =>
      rw [htext, hwalk] at h
      simp only [bind, Except.bind] at h
      by_cases hdirectory : t.get? l = some .directory
      · obtain ⟨rfl, hnames, hpass⟩ := (walk_directory_iff hq hway).1 ⟨hwalk, hdirectory⟩
        rw [dif_pos hdirectory] at h
        by_cases hup : name = ".."
        · rw [if_pos hup] at h
          have hshort : name.utf8ByteSize ≤ maxNameBytes := by
            rw [hup]
            decide
          refine ⟨Path.usable_child_iff.2 ⟨htext, hnames, hshort⟩, hpass, ?_⟩
          rw [if_pos hup]
          exact (Except.ok.inj h).symm
        · rw [if_neg hup] at h
          by_cases hlong : maxNameBytes < name.utf8ByteSize
          · rw [if_pos hlong] at h
            cases h
          · rw [if_neg hlong] at h
            refine ⟨Path.usable_child_iff.2 ⟨htext, hnames, Nat.not_lt.1 hlong⟩, hpass, ?_⟩
            rw [if_neg hup]
            exact (Except.ok.inj h).symm
      · rw [dif_neg hdirectory] at h
        cases h

/-- A path on a way without symbolic links leads to a directory if all of the way is there. -/
theorem isDirectory_iff (hp : p.Normal) (htrailing : p.trailing = false)
    (hway : t.Unlinked cwd p) :
    t.isDirectory cwd p = true ↔ p.Usable ∧ t.Passable cwd p := by
  have hpieces : p.pieces = p.names := by
    rw [Path.pieces, htrailing]
    exact List.append_nil _
  have hwalk := fun k => @walk_directory_iff t maxLinks (p.start cwd) k p.names hp hway
  unfold isDirectory resolve
  rw [hpieces]
  cases htext : checkOperand p.text with
  | error fault =>
    constructor
    · intro h
      cases h
    · rintro ⟨husable, -⟩
      rw [husable.text] at htext
      cases htext
  | ok =>
    dsimp only [bind, Except.bind]
    constructor
    · intro h
      split at h
      · next k hk =>
        obtain ⟨-, hnames, hpass⟩ := (hwalk k).1 ⟨hk, beq_iff_eq.1 h⟩
        exact ⟨⟨htext, hnames⟩, hpass⟩
      · cases h
    · rintro ⟨husable, hpass⟩
      obtain ⟨hk, hdirectory⟩ := (hwalk _).2 ⟨rfl, husable.names, hpass⟩
      rw [hk]
      exact beq_iff_eq.2 hdirectory

end Tree
end NfsProvisioner
