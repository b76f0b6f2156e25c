import Mathlib.Data.List.TakeWhile
import NfsProvisioner.Controller
import NfsProvisioner.Mounter.NfsClient

/-!
# When the mount table is read correctly

The host escapes spaces, tabs, newlines and backslashes in the table, and the reader neither undoes
an escape nor knows that other blanks stand there as they are. `table_read_right_iff_plain` says
which characters make the difference: tables are read correctly whatever they list if and only if no
device holds a blank that the host leaves as it is, and no mount point holds a blank or a backslash.
Names of volumes may hold either, and then a mounted export is overlooked or one that is not mounted
is taken for mounted (`blank_in_name_misread`).
-/
namespace NfsProvisioner.MountTable

open Text

/-- A character that the host escapes. -/
def isEscaped (c : Char) : Bool :=
  c == ' ' || c == '\t' || c == '\n' || c == '\\'

/-- An entry as a host can have it. -/
structure Mounted.Valid (m : Mounted) : Prop where
  device_ne : m.device ≠ ""
  absolute : m.mountPoint.toList.head? = some '/'
  one_line : '\n' ∉ m.rest.toList

/-- A line of the table without its end. -/
def lineOf (m : Mounted) : List Char :=
  m.device.toList.flatMap escapeChar ++
    ' ' :: (m.mountPoint.toList.flatMap escapeChar ++ ' ' :: m.rest.toList)

theorem toList_renderLine (m : Mounted) : (renderLine m).toList = lineOf m ++ ['\n'] := by
  simp [renderLine, lineOf, escapeColumn, String.toList_append]

theorem escapeChar_of_not_escaped {c : Char} (h : isEscaped c = false) : escapeChar c = [c] := by
  simp only [isEscaped, Bool.or_eq_false_iff, beq_eq_false_iff_ne] at h
  obtain ⟨⟨⟨hspace, htab⟩, hnewline⟩, hbackslash⟩ := h
  rw [escapeChar, if_neg hspace, if_neg htab, if_neg hnewline, if_neg hbackslash]

/-- A blank in an escaped column is one that the host leaves as it is. -/
theorem eq_of_blank_mem_escapeChar {c d : Char} (hd : d ∈ escapeChar c) (hb : isBlank d = true) :
    d = c ∧ isEscaped c = false := by
  have plain : ∀ s : List Char, (s.all fun x => !isBlank x) = true → d ∉ s := by
    intro s hs hmem
    have hnot := List.all_eq_true.1 hs d hmem
    rw [hb] at hnot
    exact Bool.false_ne_true hnot
  cases he : isEscaped c with
  | false =>
    rw [escapeChar_of_not_escaped he] at hd
    exact ⟨List.mem_singleton.1 hd, rfl⟩
  | true =>
    simp only [isEscaped, Bool.or_eq_true, beq_iff_eq] at he
    rcases he with ((rfl | rfl) | rfl) | rfl <;> exact absurd hd (plain _ (by decide))

theorem newline_notMem_escape (column : List Char) : '\n' ∉ column.flatMap escapeChar := by
  intro h
  obtain ⟨c, -, hc⟩ := List.mem_flatMap.1 h
  obtain ⟨rfl, he⟩ := eq_of_blank_mem_escapeChar hc (by decide)
  exact absurd he (by decide)

theorem newline_notMem_lineOf {m : Mounted} (h : m.Valid) : '\n' ∉ lineOf m := by
  simp only [lineOf, List.mem_append, List.mem_cons, not_or]
  exact ⟨newline_notMem_escape _, by decide, newline_notMem_escape _, by decide, h.one_line⟩

/-- The lines of a written table are those of its entries and an empty one at the end. -/
theorem lines_render {mounted : List Mounted} (h : ∀ m ∈ mounted, m.Valid) :
    lines (render mounted).toList = mounted.map lineOf ++ [[]] := by
  induction mounted with
  | nil => rfl
  | cons m rest ih =>
    have hline := newline_notMem_lineOf (h m (by simp))
    have hrest := ih fun k hk => h k (List.mem_cons_of_mem m hk)
    have happend : (render (m :: rest)).toList =
        lineOf m ++ '\n' :: (render rest).toList := by
      simp [render, toList_renderLine, String.toList_append]
    rw [happend, lines, split_append_cons hline, ← lines, hrest]
    rfl

/-- What an entry is read as mounted at: the second word of its columns as they are written. -/
def Mounted.read (m : Mounted) : Option (List Char) :=
  (words (m.device.toList.flatMap escapeChar) ++
    (words (m.mountPoint.toList.flatMap escapeChar) ++ words m.rest.toList))[1]?

theorem mountPoint?_lineOf (m : Mounted) : mountPoint? (lineOf m) = m.read := by
  have hblank : isBlank ' ' = true := by decide
  rw [mountPoint?, lineOf, words_append_cons hblank, words_append_cons hblank, Mounted.read]

/-- A table lists what is read as the mount point of one of its entries. -/
theorem lists_render {mounted : List Mounted} (h : ∀ m ∈ mounted, m.Valid) (path : String) :
    lists (render mounted) path = true ↔
      ∃ m ∈ mounted, m.read = some path.toList := by
  have hend : mountPoint? [] ≠ some path.toList := by simp [mountPoint?, words, splitWhere]
  rw [lists, lines_render h]
  simp [hend, mountPoint?_lineOf]

/-- A device without blanks that stand in the table as they are. -/
def PlainDevice (device : List Char) : Prop :=
  ∀ c ∈ device, isBlank c = true → isEscaped c = true

instance (device : List Char) : Decidable (PlainDevice device) :=
  List.decidableBAll _ device

/-- A mount point without blanks and without anything that is escaped. -/
def PlainPoint (point : List Char) : Prop :=
  ∀ c ∈ point, isBlank c = false ∧ c ≠ '\\'

instance (point : List Char) : Decidable (PlainPoint point) :=
  List.decidableBAll _ point

/-- An entry whose columns mean what they say when they are read without undoing escapes. -/
structure Mounted.Plain (m : Mounted) : Prop where
  device : PlainDevice m.device.toList
  mountPoint : PlainPoint m.mountPoint.toList

theorem not_escaped_of_plain {c : Char} (hb : isBlank c = false) (hc : c ≠ '\\') :
    isEscaped c = false := by
  cases he : isEscaped c with
  | false => rfl
  | true =>
    simp only [isEscaped, Bool.or_eq_true, beq_iff_eq] at he
    rcases he with ((rfl | rfl) | rfl) | rfl
    · exact absurd hb (by decide)
    · exact absurd hb (by decide)
    · exact absurd hb (by decide)
    · exact absurd rfl hc

theorem escape_of_plain {column : List Char} (h : PlainPoint column) :
    column.flatMap escapeChar = column := by
  induction column with
  | nil => rfl
  | cons c rest ih =>
    have hc := h c (by simp)
    rw [List.flatMap_cons, escapeChar_of_not_escaped (not_escaped_of_plain hc.1 hc.2),
      ih fun d hd => h d (List.mem_cons_of_mem c hd)]
    rfl

theorem escape_ne_nil {column : List Char} (h : column ≠ []) :
    column.flatMap escapeChar ≠ [] := by
  cases column with
  | nil => exact absurd rfl h
  | cons c rest =>
    have hne : escapeChar c ≠ [] := by
      simp only [escapeChar]
      repeat' split
      all_goals simp
    simp [hne]

/-- Escaping leaves no blanks in a column that has no other blanks than escaped ones. -/
theorem not_blank_of_mem_escape {column : List Char} (h : PlainDevice column) :
    ∀ d ∈ column.flatMap escapeChar, isBlank d = false := by
  intro d hd
  obtain ⟨c, hc, hdc⟩ := List.mem_flatMap.1 hd
  cases hb : isBlank d with
  | false => rfl
  | true =>
    obtain ⟨rfl, he⟩ := eq_of_blank_mem_escapeChar hdc hb
    rw [h d hc hb] at he
    cases he

/-- What is seen of a column: as it is written, up to the first blank. -/
def seen (column : List Char) : List Char :=
  (column.flatMap escapeChar).takeWhile fun c => !isBlank c

/-- After a device that is one word the mount point is seen. -/
theorem read_eq_seen {m : Mounted} (h : m.Valid) (hdevice : PlainDevice m.device.toList) :
    m.read = some (seen m.mountPoint.toList) := by
  have hne : m.device.toList ≠ [] := fun hnil => h.device_ne (String.toList_eq_nil_iff.1 hnil)
  have hword := words_of_forall (not_blank_of_mem_escape hdevice) (escape_ne_nil hne)
  obtain ⟨rest, hcons⟩ := List.head?_eq_some_iff.1 h.absolute
  have hslash : ('/' :: rest).flatMap escapeChar = '/' :: rest.flatMap escapeChar := rfl
  rw [Mounted.read, hword, hcons, hslash, words_eq_cons (by decide), seen, hslash]
  rfl

theorem length_le_escape (column : List Char) :
    column.length ≤ (column.flatMap escapeChar).length := by
  induction column with
  | nil => exact Nat.le_refl _
  | cons c rest ih =>
    have hc : 0 < (escapeChar c).length := by
      have hne : [c].flatMap escapeChar ≠ [] := escape_ne_nil (by simp)
      simpa [List.length_pos_iff] using hne
    simp only [List.flatMap_cons, List.length_append, List.length_cons]
    omega

/-- A column that escaping leaves alone holds nothing that is escaped. -/
theorem not_escaped_of_escape_eq {column : List Char}
    (h : column.flatMap escapeChar = column) : ∀ c ∈ column, isEscaped c = false := by
  induction column with
  | nil => simp
  | cons c rest ih =>
    cases hc : isEscaped c with
    | false =>
      rw [List.flatMap_cons, escapeChar_of_not_escaped hc] at h
      have hrest := ih (List.cons.inj h).2
      intro d hd
      rcases List.mem_cons.1 hd with rfl | hd
      · exact hc
      · exact hrest d hd
    | true =>
      -- An escape is four characters long, and the rest does not get shorter.
      have hlength : (escapeChar c).length = 4 := by
        simp only [isEscaped, Bool.or_eq_true, beq_iff_eq] at hc
        rcases hc with ((rfl | rfl) | rfl) | rfl <;> rfl
      have hrest := length_le_escape rest
      have heq := congrArg List.length h
      simp only [List.flatMap_cons, List.length_append, List.length_cons] at heq
      omega

/-- Only a plain column is seen as it is. -/
theorem seen_eq_iff {column : List Char} : seen column = column ↔ PlainPoint column := by
  constructor
  · intro h
    have hblank : ∀ c ∈ column, isBlank c = false := by
      intro c hc
      rw [← h] at hc
      simpa using List.mem_takeWhile_imp hc
    have hdevice : PlainDevice column := by
      intro c hc hb
      rw [hblank c hc] at hb
      cases hb
    have hwhole : seen column = column.flatMap escapeChar := by
      apply List.takeWhile_eq_self_iff.2
      intro d hd
      rw [not_blank_of_mem_escape hdevice d hd]
      rfl
    have hnot := not_escaped_of_escape_eq (hwhole.symm.trans h)
    refine fun c hc => ⟨hblank c hc, ?_⟩
    rintro rfl
    exact absurd (hnot _ hc) (by decide)
  · intro h
    rw [seen, escape_of_plain h, List.takeWhile_eq_self_iff]
    intro c hc
    rw [(h c hc).1]
    rfl

theorem read_eq_iff {m : Mounted} (h : m.Valid) (hdevice : PlainDevice m.device.toList) :
    m.read = some m.mountPoint.toList ↔ PlainPoint m.mountPoint.toList := by
  rw [read_eq_seen h hdevice, Option.some.injEq, seen_eq_iff]

/-- A table of plain entries lists exactly their mount points. -/
theorem lists_render_of_plain {mounted : List Mounted}
    (h : ∀ m ∈ mounted, m.Valid ∧ m.Plain) (path : String) :
    lists (render mounted) path = true ↔ ∃ m ∈ mounted, m.mountPoint = path := by
  have hread : ∀ m ∈ mounted, m.read = some m.mountPoint.toList := fun m hm =>
    (read_eq_iff (h m hm).1 (h m hm).2.device).2 (h m hm).2.mountPoint
  rw [lists_render fun m hm => (h m hm).1]
  constructor
  · rintro ⟨m, hm, heq⟩
    rw [hread m hm, Option.some.injEq] at heq
    exact ⟨m, hm, String.toList_inj.1 heq⟩
  · rintro ⟨m, hm, rfl⟩
    exact ⟨m, hm, hread m hm⟩

theorem lists_render_singleton {m : Mounted} (h : m.Valid) (path : String) :
    lists (render [m]) path = true ↔ m.read = some path.toList := by
  have hall : ∀ k ∈ [m], k.Valid := fun k hk => by
    rw [List.mem_singleton.1 hk]
    exact h
  rw [lists_render hall]
  simp

/-- A mount point is never overlooked, whatever else is mounted, exactly if it is plain. -/
theorem never_overlooked_iff {path : String} (habsolute : path.toList.head? = some '/') :
    (∀ mounted : List Mounted, (∀ m ∈ mounted, m.Valid ∧ PlainDevice m.device.toList) →
      (∃ m ∈ mounted, m.mountPoint = path) → lists (render mounted) path = true) ↔
      PlainPoint path.toList := by
  constructor
  · intro h
    have hvalid : Mounted.Valid ⟨"/", path, ""⟩ := ⟨by simp, habsolute, by simp⟩
    have hdevice : PlainDevice "/".toList := by decide
    have hlisted := h [⟨"/", path, ""⟩]
      (fun m hm => by
        rw [List.mem_singleton.1 hm]
        exact ⟨hvalid, hdevice⟩)
      ⟨⟨"/", path, ""⟩, List.mem_singleton_self _, rfl⟩
    exact (read_eq_iff hvalid hdevice).1 ((lists_render_singleton hvalid path).1 hlisted)
  · rintro hplain mounted h ⟨m, hm, rfl⟩
    rw [lists_render fun k hk => (h k hk).1]
    exact ⟨m, hm, (read_eq_iff (h m hm).1 (h m hm).2).2 hplain⟩

/-- The table is read as it was written. -/
def ReadsRight (mounted : List Mounted) : Prop :=
  ∀ path : String, path.toList.head? = some '/' →
    (lists (render mounted) path = true ↔ ∃ m ∈ mounted, m.mountPoint = path)

/-- An entry whose columns hold slashes and otherwise only given characters. -/
structure Mounted.Over (m : Mounted) (devices points : Char → Prop) : Prop where
  device : ∀ c ∈ m.device.toList, c = '/' ∨ devices c
  mountPoint : ∀ c ∈ m.mountPoint.toList, c = '/' ∨ points c

/-- Which characters may stand in the table for it to be read correctly in any case. -/
theorem readsRight_iff (devices points : Char → Prop) :
    (∀ mounted : List Mounted, (∀ m ∈ mounted, m.Valid ∧ m.Over devices points) →
      ReadsRight mounted) ↔
      (∀ c, devices c → isBlank c = true → isEscaped c = true) ∧
        ∀ c, points c → isBlank c = false ∧ c ≠ '\\' := by
  constructor
  · intro h
    have hread (m : Mounted) (hm : m.Valid) (hover : m.Over devices points) :
        m.read = some m.mountPoint.toList := by
      have hright := h [m] fun k hk => by
        rw [List.mem_singleton.1 hk]
        exact ⟨hm, hover⟩
      exact (lists_render_singleton hm _).1
        ((hright m.mountPoint hm.absolute).2 ⟨m, List.mem_singleton_self m, rfl⟩)
    refine ⟨fun c hc hb => ?_, fun c hc => ?_⟩
    · cases he : isEscaped c with
      | true => rfl
      | false =>
        -- A device that is one blank, left as it is, is no word of its line.
        have hline := hread ⟨String.ofList [c], "/", ""⟩
          ⟨by simp [← String.toList_inj], by simp, by simp⟩ ⟨by simp [hc], by simp⟩
        have hdevice : words ((String.ofList [c]).toList.flatMap escapeChar) = [] := by
          simp [escapeChar_of_not_escaped he, words, splitWhere, hb]
        have hpoint : words ("/".toList.flatMap escapeChar) = ["/".toList] := by decide
        have hrest : words "".toList = [] := by decide
        rw [Mounted.read, hdevice, hpoint, hrest] at hline
        cases hline
    · have hvalid : Mounted.Valid ⟨"/", "/" ++ String.ofList [c], ""⟩ :=
        ⟨by simp, by simp, by simp⟩
      have hdevice : PlainDevice "/".toList := by decide
      have hline := hread _ hvalid ⟨by simp, by simp [hc]⟩
      exact (read_eq_iff hvalid hdevice).1 hline c (by simp)
  · rintro ⟨hdevices, hpoints⟩ mounted h path -
    apply lists_render_of_plain
    intro m hm
    refine ⟨(h m hm).1, fun c hc hb => ?_, fun c hc => ?_⟩
    · rcases (h m hm).2.device c hc with rfl | hd
      · exact absurd hb (by decide)
      · exact hdevices c hd hb
    · rcases (h m hm).2.mountPoint c hc with rfl | hp
      · decide
      · exact hpoints c hp

/-- What the table is searched for when a target is looked up. -/
def lookedUp (cwd : Location) (tree : Tree) (target : String) : String :=
  match tree.canonical cwd target with
  | .ok resolved => resolved
  | .error _ => target

theorem mountState_of_plain {client : NfsClient} {mounted : List Mounted}
    (htable : client.table = some (render mounted)) (h : ∀ m ∈ mounted, m.Valid ∧ m.Plain)
    (cwd : Location) (tree : Tree) (target : String) :
    client.mountState cwd tree target =
      some (decide (∃ m ∈ mounted, m.mountPoint = lookedUp cwd tree target)) := by
  have hlists := lists_render_of_plain h (lookedUp cwd tree target)
  rw [NfsClient.mountState, htable, Option.map_some, Option.some.injEq, Bool.eq_iff_iff,
    decide_eq_true_iff]
  exact hlists

/-- An export is attached exactly to targets that are not mounted, and the host is asked to detach,
just as if there were no table, exactly at targets that are. -/
def FollowsTable (client : NfsClient) (mounted : List Mounted) : Prop :=
  ∀ (cwd : Location) (tree : Tree) (target server share : String),
    if ∃ m ∈ mounted, m.mountPoint = lookedUp cwd tree target then
      client.attachAt cwd tree target server share = ⟨.ok (), none, []⟩ ∧
        client.detachAt cwd tree target = { client with table := none }.detachAt cwd tree target
    else
      client.attachAt cwd tree target server share = client.runMount target server share ∧
        client.detachAt cwd tree target = (.ok (), [])

theorem followsTable_of_plain {client : NfsClient} {mounted : List Mounted}
    (htable : client.table = some (render mounted)) (h : ∀ m ∈ mounted, m.Valid ∧ m.Plain) :
    FollowsTable client mounted := by
  intro cwd tree target server share
  have hstate := mountState_of_plain htable h cwd tree target
  split
  · next hlisted =>
    rw [decide_eq_true hlisted] at hstate
    constructor
    · simp [NfsClient.attachAt, NfsClient.isMountPoint, hstate]
    · have hnone : { client with table := none }.mountState cwd tree target = none := rfl
      rw [NfsClient.detachAt, NfsClient.detachAt, hstate, hnone]
      simp
  · next hunlisted =>
    rw [decide_eq_false hunlisted] at hstate
    constructor
    · simp [NfsClient.attachAt, NfsClient.isMountPoint, hstate]
    · simp [NfsClient.detachAt, hstate]

/-- When the table is read correctly. For one table and one path it depends on what the entries are
read as, which is right for an entry with a plain device exactly if its mount point is plain. A
mount point is never overlooked exactly if it is plain, and tables with given characters are always
read correctly exactly if these make plain entries. With a plain table the client does what the
table says. -/
theorem table_read_right_iff_plain {mounted : List Mounted} (h : ∀ m ∈ mounted, m.Valid)
    {path : String} (habsolute : path.toList.head? = some '/') :
    ((lists (render mounted) path = true ↔ ∃ m ∈ mounted, m.mountPoint = path) ↔
      ((∃ m ∈ mounted, m.read = some path.toList) ↔ ∃ m ∈ mounted, m.mountPoint = path)) ∧
    (∀ m ∈ mounted, PlainDevice m.device.toList →
      (m.read = some m.mountPoint.toList ↔ PlainPoint m.mountPoint.toList)) ∧
    ((∀ others : List Mounted, (∀ m ∈ others, m.Valid ∧ PlainDevice m.device.toList) →
      (∃ m ∈ others, m.mountPoint = path) → lists (render others) path = true) ↔
        PlainPoint path.toList) ∧
    (∀ devices points : Char → Prop,
      (∀ others : List Mounted, (∀ m ∈ others, m.Valid ∧ m.Over devices points) →
        ReadsRight others) ↔
        (∀ c, devices c → isBlank c = true → isEscaped c = true) ∧
          ∀ c, points c → isBlank c = false ∧ c ≠ '\\') ∧
    ((∀ m ∈ mounted, m.Plain) → ∀ client : NfsClient, client.table = some (render mounted) →
      FollowsTable client mounted) := by
  refine ⟨?_, fun m hm => read_eq_iff (h m hm), never_overlooked_iff habsolute, readsRight_iff,
    fun hplain client htable => ?_⟩
  · rw [lists_render h]
  · exact followsTable_of_plain htable fun m hm => ⟨h m hm, hplain m hm⟩

/-- With one export mounted the host is asked to detach it, and nothing else is taken for
mounted. -/
theorem table_read_right_of_one_export :
    let mounted : List Mounted := [⟨"s:/base", "/work/vol1", "nfs4 rw 0 0"⟩]
    let client : NfsClient := ⟨[], some (render mounted), .missing, .refused "busy"⟩
    (∀ m ∈ mounted, m.Valid) ∧ "/work/vol1".toList.head? = some '/' ∧
      (∀ others : List Mounted, (∀ m ∈ others, m.Valid ∧ PlainDevice m.device.toList) →
        (∃ m ∈ others, m.mountPoint = "/work/vol1") →
          lists (render others) "/work/vol1" = true) ∧
      client.detachAt [] Tree.bare "/work/vol1" =
        (.error (.unmountFailed "/work/vol1" "busy"), []) ∧
      client.attachAt [] Tree.bare "/work/vol" "s" "/base" =
        client.runMount "/work/vol" "s" "/base" := by
  intro mounted client
  have hvalid : ∀ m ∈ mounted, m.Valid := by
    intro m hm
    obtain rfl := List.mem_singleton.1 hm
    exact ⟨by decide, by decide, by decide⟩
  have hplain : ∀ m ∈ mounted, m.Plain := by
    intro m hm
    obtain rfl := List.mem_singleton.1 hm
    exact ⟨by decide, by decide⟩
  obtain ⟨-, -, hseen, -, hfollows⟩ :=
    @table_read_right_iff_plain mounted hvalid "/work/vol1" (by decide)
  have hfollow := hfollows hplain client rfl [] Tree.bare
  have hfound : lookedUp [] Tree.bare "/work/vol1" = "/work/vol1" := by decide +kernel
  have hother : lookedUp [] Tree.bare "/work/vol" = "/work/vol" := by decide +kernel
  refine ⟨hvalid, by decide, hseen.2 (by decide), ?_, ?_⟩
  · have h := hfollow "/work/vol1" "s" "/base"
    rw [hfound, if_pos ⟨_, List.mem_singleton_self _, rfl⟩] at h
    exact h.2
  · have h := hfollow "/work/vol" "s" "/base"
    rw [hother, if_neg (by decide)] at h
    exact h.1

/-- The driver accepts a name with a blank, and one with a blank that is not escaped. The mount
point of the first volume is listed in the table but not found there, and the export stays attached
although detaching is answered with success. The second makes a volume look mounted that is not. -/
theorem blank_in_name_misread :
    let c : Controller := .start {} { workingDirectory := "/work" } []
    let overlooked : Mounted := ⟨"s:/base", "/work/my vol", "nfs4 rw 0 0"⟩
    let mistaken : Mounted := ⟨"s:/base", "/work/vol\u00a0x", "nfs4 rw 0 0"⟩
    let client (m : Mounted) : NfsClient := ⟨[], some (render [m]), .missing, .refused "busy"⟩
    (Placement.read "my vol" [("server", "s"), ("base-dir", "base")] =
        .ok ⟨"s", "base", "my vol"⟩ ∧
      (c.mountPoint ⟨"s", "base", "my vol"⟩).text = overlooked.mountPoint ∧
      overlooked.Valid ∧ lists (render [overlooked]) overlooked.mountPoint = false ∧
      (client overlooked).detachAt [] Tree.bare overlooked.mountPoint = (.ok (), [])) ∧
    (Placement.read "vol\u00a0x" [("server", "s"), ("base-dir", "base")] =
        .ok ⟨"s", "base", "vol\u00a0x"⟩ ∧
      mistaken.Valid ∧ mistaken.mountPoint ≠ "/work/vol" ∧
      lists (render [mistaken]) "/work/vol" = true ∧
      (client mistaken).attachAt [] Tree.bare "/work/vol" "s" "/base" = ⟨.ok (), none, []⟩) := by
  intro c overlooked mistaken client
  have hoverlooked : overlooked.Valid := ⟨by decide, by decide, by decide⟩
  have hmistaken : mistaken.Valid := ⟨by decide, by decide, by decide⟩
  constructor
  · have hmountPoint : (c.mountPoint ⟨"s", "base", "my vol"⟩).text = overlooked.mountPoint := by
      decide
    have hlists : lists (render [overlooked]) overlooked.mountPoint = false := by decide
    have hstate : (client overlooked).mountState [] Tree.bare overlooked.mountPoint =
        some false := by
      decide +kernel
    refine ⟨rfl, hmountPoint, hoverlooked, hlists, ?_⟩
    rw [NfsClient.detachAt, hstate]
    rfl
  · have hne : mistaken.mountPoint ≠ "/work/vol" := by decide
    have hlists : lists (render [mistaken]) "/work/vol" = true := by decide
    have hstate : (client mistaken).mountState [] Tree.bare "/work/vol" = some true := by
      decide +kernel
    refine ⟨rfl, hmistaken, hne, hlists, ?_⟩
    rw [NfsClient.attachAt, NfsClient.isMountPoint, hstate]
    rfl

end NfsProvisioner.MountTable
