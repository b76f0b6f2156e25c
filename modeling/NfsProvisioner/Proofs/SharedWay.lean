import NfsProvisioner.Proofs.Confinement
import NfsProvisioner.Proofs.Interference
import NfsProvisioner.Proofs.Obstacles

/-!
# Making a directory while others make theirs

Several procedures may each make a directory and those above it at the same time, and the
directories above may be the same ones. Each may find that some of them have appeared since it last
looked, and then takes them as they are. What is made on the way is what could be made from the
start (`Tree.MakeableAt`), whoever makes it, so making a directory comes to the same as if there
were nobody else (`Procedure.assures_createDirectories`).
-/
namespace NfsProvisioner

namespace Tree

/-- At a location on the way of a path a directory can be made, or is there. -/
def MakeableAt (t : Tree) (cwd : Location) (target : Path) (l : Location) : Prop :=
  ∃ p : Path, p.Above target ∧ p.location cwd = l ∧ t.Makeable cwd p

/-- Between two trees a location stays as it is, or a directory appears there that could be made
from the start. -/
def Prepared (t₀ : Tree) (cwd : Location) (target : Path) (t t' : Tree) (l : Location) : Prop :=
  t'.get? l = t.get? l ∨
    t₀.MakeableAt cwd target l ∧ t.get? l = none ∧ t'.get? l = some .directory

/-- The way to `target` has been prepared and nothing else has been done at or below its end. -/
structure Underway (t₀ t : Tree) (cwd : Location) (target : Path) : Prop where
  way : ∀ l ∈ target.way cwd, t₀.Prepared cwd target t₀ t l
  below : ∀ r, r ≠ [] → t.get? (target.location cwd ++ r) = t₀.get? (target.location cwd ++ r)

variable {t₀ t t' t'' : Tree} {cwd l : Location} {target p q : Path} {last : String}

theorem MakeableAt.mem_way (h : t₀.MakeableAt cwd target l) : l ∈ target.way cwd := by
  obtain ⟨p, habove, rfl, -⟩ := h
  exact habove.mem_way Path.location_mem_way

/-- What can be made on the way to an entry is the entry, or can be made on the way to the directory
above it. -/
theorem MakeableAt.of_child (h : t₀.MakeableAt cwd (q.child last) l) :
    l = (q.child last).location cwd ∧ t₀.Makeable cwd (q.child last) ∨ t₀.MakeableAt cwd q l := by
  obtain ⟨p, habove, rfl, hmakeable⟩ := h
  rcases habove.of_child with rfl | hq
  · exact .inl ⟨rfl, hmakeable⟩
  · exact .inr ⟨p, hq, rfl, hmakeable⟩

theorem MakeableAt.child (h : t₀.MakeableAt cwd q l) : t₀.MakeableAt cwd (q.child last) l := by
  obtain ⟨p, habove, heq, hmakeable⟩ := h
  exact ⟨p, ⟨habove.anchor, habove.trailing, habove.names.trans (List.prefix_append _ _)⟩, heq,
    hmakeable⟩

theorem Prepared.refl : t₀.Prepared cwd target t t l :=
  .inl rfl

theorem Prepared.grownAt (h : t₀.Prepared cwd target t t' l) : t.GrownAt t' l :=
  h.imp_right And.right

theorem Prepared.trans (h : t₀.Prepared cwd target t t' l)
    (h' : t₀.Prepared cwd target t' t'' l) : t₀.Prepared cwd target t t'' l := by
  rcases h' with heq' | ⟨hmakeable, hnone', hthere'⟩
  · rw [Prepared, heq']
    exact h
  · exact .inr ⟨hmakeable, h.grownAt.missing hnone', hthere'⟩

/-- What the members of a crew that make directories on one way may expect of each other. The
directory at the end of the way, and what is in it, is left to one of them. -/
def sharing (t₀ : Tree) (cwd : Location) (target : Path) : Pact where
  rely t t' := (∀ r, t'.get? (target.location cwd ++ r) = t.get? (target.location cwd ++ r)) ∧
    ∀ l ∈ target.way cwd, t₀.Prepared cwd target t t' l
  guarantee t t' := ∀ l, ¬ target.location cwd <+: l → t'.get? l = t.get? l ∨
    checkOperand target.text = .ok () ∧ t₀.MakeableAt cwd target l ∧ t.get? l = none ∧
      t'.get? l = some .directory
  rely_refl _ := ⟨fun _ => rfl, fun _ _ => .refl⟩
  rely_trans h h' := ⟨fun r => (h'.1 r).trans (h.1 r), fun l hl => (h.2 l hl).trans (h'.2 l hl)⟩

/-- What is done for one entry of a directory is nothing that is minded for another one. -/
theorem sharing_apart {working : Path} {name name' : String} (hdown : ".." ∉ working.names)
    (hup : name ≠ "..") (hup' : name' ≠ "..") (hne : name ≠ name')
    (h : (t₀.sharing cwd (working.child name)).guarantee t t') :
    (t₀.sharing cwd (working.child name')).rely t t' := by
  have hbeside {l : Location} (hl : (working.child name).location cwd <+: l) :
      ¬ (working.child name').location cwd <+: l := by
    rw [Path.location_child hup] at hl
    rw [Path.location_child hup']
    intro hl'
    have heq := (List.prefix_of_prefix_length_le hl hl' (by simp)).eq_of_length (by simp)
    simp only [List.append_cancel_left_eq, List.cons.injEq, and_true] at heq
    exact hne heq
  refine ⟨fun k => ?_, fun l hl => ?_⟩
  · have hbelow := List.prefix_append ((working.child name').location cwd) k
    rcases h _ fun hin => hbeside hin hbelow with heq | ⟨-, hmakeable, -⟩
    · exact heq
    · have hend := Path.prefix_of_mem_way (Path.not_up_mem_child hdown hup) hmakeable.mem_way
      exact absurd (hbelow.trans hend) (hbeside (List.prefix_refl _))
  · have hend := Path.prefix_of_mem_way (Path.not_up_mem_child hdown hup') hl
    have hout : ¬ (working.child name).location cwd <+: l :=
      fun hin => hbeside (hin.trans hend) (List.prefix_refl _)
    rcases h l hout with heq | ⟨-, hmakeable, hnone, hthere⟩
    · exact .inl heq
    · rcases hmakeable.of_child with ⟨rfl, -⟩ | hmakeable
      · exact absurd (List.prefix_refl _) hout
      · exact .inr ⟨hmakeable.child, hnone, hthere⟩

namespace Underway

theorem refl : Underway t₀ t₀ cwd target :=
  ⟨fun _ _ => .refl, fun _ _ => rfl⟩

theorem of_rely (h : Underway t₀ t cwd target) (hrely : (t₀.sharing cwd target).rely t t') :
    Underway t₀ t' cwd target :=
  ⟨fun l hl => (h.way l hl).trans (hrely.2 l hl), fun r hr => (hrely.1 r).trans (h.below r hr)⟩

variable (h : Underway t₀ t cwd target)
include h

theorem start : t.get? (target.start cwd) = t₀.get? (target.start cwd) := by
  rcases h.way _ Path.start_mem_way with heq | ⟨⟨p, habove, -, hmakeable⟩, hnone, -⟩
  · exact heq
  · rw [← habove.start_eq, hmakeable.start] at hnone
    cases hnone

theorem unlinked (hlinks : t₀.Unlinked cwd target) : t.Unlinked cwd target :=
  fun l hl => (h.way l hl).grownAt.linkless (hlinks l hl)

theorem start_above (habove : p.Above target) : t.get? (p.start cwd) = t₀.get? (p.start cwd) := by
  rw [habove.start_eq]
  exact h.start

theorem makeable_iff (habove : p.Above target) : t.Makeable cwd p ↔ t₀.Makeable cwd p := by
  have hclear : t.Clear cwd p ↔ t₀.Clear cwd p :=
    forall₂_congr fun l hl => (h.way l (habove.mem_way hl)).grownAt.open_iff
  constructor
  · exact fun hm => ⟨h.start_above habove ▸ hm.start, hclear.1 hm.clear, hm.usable⟩
  · exact fun hm => ⟨(h.start_above habove).trans hm.start, hclear.2 hm.clear, hm.usable⟩

theorem verdict (hdown : ".." ∉ target.names) (habove : (q.child last).Above target) :
    t.verdict cwd q last = t₀.verdict cwd q last :=
  verdict_of_grown (habove.not_up_mem hdown) (h.start_above (p := q.child last) habove)
    fun l hl => (h.way l (habove.mem_way hl)).grownAt

variable (hnormal : target.Normal) (hdown : ".." ∉ target.names) (hlinks : t₀.Unlinked cwd target)
  (habove : (q.child last).Above target)
include hnormal hdown hlinks habove

/-- A directory that is made is one that could be made from the start. -/
theorem made (h' : t.makeDirectory cwd (q.child last) = .ok t') :
    Underway t₀ t' cwd target ∧ t'.Passable cwd (q.child last) ∧
      t₀.Makeable cwd (q.child last) ∧ (∀ l, t₀.Prepared cwd target t t' l) ∧
      ∀ l, l ≠ (q.child last).location cwd → t'.get? l = t.get? l := by
  have hq : q.Normal := fun m hm => habove.normal hnormal m (List.mem_append_left _ hm)
  have hlinks' := (h.unlinked hlinks).above habove
  obtain ⟨hup, husable, hpass, hfree, hput⟩ := create_child_ok hq hlinks'.of_child h'
  rw [← Path.location_child hup] at hfree hput
  have hself : (q.child last).location cwd ∈ target.way cwd :=
    habove.mem_way Path.location_mem_way
  have hmakeable : t.Makeable cwd (q.child last) := by
    refine ⟨hpass _ Path.start_mem_way, fun k hk => ?_, husable⟩
    rcases (Path.mem_way_child hup).1 hk with hk | rfl
    · exact .inr (hpass k hk)
    · rw [← Path.location_child hup]
      exact .inl hfree
  have hmakeable₀ := (h.makeable_iff habove).1 hmakeable
  have hsame : ∀ l, l ≠ (q.child last).location cwd → t'.get? l = t.get? l :=
    fun l hl => (hput l).trans (if_neg hl)
  have hprepared : ∀ l, t₀.Prepared cwd target t t' l := by
    intro l
    by_cases hl : l = (q.child last).location cwd
    · subst hl
      exact .inr ⟨⟨_, habove, rfl, hmakeable₀⟩, hfree, (hput _).trans (if_pos rfl)⟩
    · exact .inl (hsame l hl)
  refine ⟨⟨fun l hl => (h.way l hl).trans (hprepared l), fun r hr => ?_⟩, ?_, hmakeable₀, hprepared,
    hsame⟩
  · refine (hsame _ ?_).trans (h.below r hr)
    rintro heq
    exact Path.not_below_of_mem_way hdown (heq ▸ hself) hr (List.prefix_refl _)
  · refine (passable_child_iff hup).2 ⟨fun k hk => (hprepared k).grownAt.directory (hpass k hk), ?_⟩
    rw [← Path.location_child hup]
    exact (hput _).trans (if_pos rfl)

end Underway

end Tree

namespace Procedure

open NfsProvisioner.Tree

/-- What making a directory on the way to `target` comes to, whatever others have done. -/
structure Reached (t₀ : Tree) (cwd : Location) (target q : Path) (last : String)
    (calls : List Call) (answer : Except Fault Unit) (made : List Call) (t : Tree) : Prop where
  calls : made = calls
  underway : Underway t₀ t cwd target
  verdict : answer = t₀.verdict cwd q last
  passable : answer = .ok () → t.Passable cwd (q.child last)
  above : checkOperand (q.child last).text = .ok () → ∀ p : Path, p.Above (q.child last) →
    t₀.Makeable cwd p → t.Passable cwd p

variable {σ : Type} {m : Mounter σ} {t₀ t t' : Tree} {b : Backdrop} {target q : Path}
  {last : String} {calls : List Call} {next : Except Fault Unit → Procedure (Except Fault Unit)}

/-- Others leave the directories on the way where they are. -/
theorem passable_of_rely {cwd : Location} {p : Path} (habove : p.Above target)
    (hrely : (t₀.sharing cwd target).rely t t') (h : t.Passable cwd p) : t'.Passable cwd p :=
  fun l hl => (hrely.2 l (habove.mem_way hl)).grownAt.directory (h l hl)

/-- The first attempt, and what is done when the directory above turns out to be missing. -/
theorem createDirectoriesFrom_cons (anchor : Anchor) (name : String) (above : List String) :
    createDirectoriesFrom anchor false (name :: above) =
      makeDirectory (Path.child ⟨anchor, above.reverse, false⟩ name) fun
        | .error .notFound =>
          (createDirectoriesFrom anchor false above).bind fun
            | .ok () => makeDirectory (Path.child ⟨anchor, above.reverse, false⟩ name)
              (acceptExisting (Path.child ⟨anchor, above.reverse, false⟩ name))
            | .error fault => done (.error fault)
        | result => acceptExisting (Path.child ⟨anchor, above.reverse, false⟩ name) result := by
  rw [createDirectoriesFrom, List.reverse_cons]
  rfl

section

variable (hdown : ".." ∉ target.names) (habove : (q.child last).Above target)
include hdown habove

/-- A directory that is there. -/
theorem assures_there (h : Underway t₀ t b.cwd target) (hpass : t.Passable b.cwd (q.child last))
    (hmakeable : t₀.Makeable b.cwd (q.child last)) :
    (done (.ok ())).Assures b (t₀.sharing b.cwd target)
      (Reached t₀ b.cwd target q last calls) calls t := by
  intro u hrely
  have hpass' := passable_of_rely habove hrely hpass
  exact ⟨rfl, h.of_rely hrely, ((verdict_ok_iff (habove.not_up_mem hdown)).2 hmakeable).symm,
    fun _ => hpass', fun _ p hp _ => hpass'.above hp⟩

variable (hnormal : target.Normal) (hlinks : t₀.Unlinked b.cwd target)
include hnormal hlinks

/-- A directory that is refused for another reason than that the one above it is missing. -/
theorem assures_refused {fault : Fault} (h : Underway t₀ t b.cwd target)
    (hrefused : t.makeDirectory b.cwd (q.child last) = .error fault) (hfault : fault ≠ .notFound) :
    (acceptExisting (q.child last) (.error fault)).Assures b (t₀.sharing b.cwd target)
      (Reached t₀ b.cwd target q last calls) calls t := by
  have hdown' := habove.not_up_mem hdown
  have hp := habove.normal hnormal
  have hmakeable {u : Tree} (hu : Underway t₀ u b.cwd target) (husable : (q.child last).Usable)
      (hpass : u.Passable b.cwd (q.child last)) : t₀.Makeable b.cwd (q.child last) :=
    (hu.makeable_iff habove).1 ⟨hpass _ Path.start_mem_way, hpass.clear, husable⟩
  intro u hrely
  have hu := h.of_rely hrely
  have hthere := isDirectory_iff hp rfl ((hu.unlinked hlinks).above habove)
  let answer : Except Fault Unit :=
    if u.isDirectory b.cwd (q.child last) then .ok () else .error fault
  change (done answer).Assures b _ _ calls u
  rcases makeDirectory_error hdown' hp ((h.unlinked hlinks).above habove) hrefused with
    ⟨-, hverdict⟩ | ⟨rfl, -⟩ | ⟨-, husable, hpass⟩
  · rw [h.verdict hdown habove] at hverdict
    have hnever : ¬ t₀.Makeable b.cwd (q.child last) := by
      intro hm
      rw [(verdict_ok_iff hdown').2 hm] at hverdict
      cases hverdict
    have hanswer : answer = .error fault := if_neg fun htrue =>
       hnever (hmakeable hu (hthere.1 htrue).1 (hthere.1 htrue).2)
    rw [hanswer]
    intro v hrely'
    refine ⟨rfl, hu.of_rely hrely', hverdict.symm, fun hok => (by cases hok),
      fun htext p hp' hm => ?_⟩
    rcases hp'.of_child with rfl | hq
    · exact absurd hm hnever
    refine passable_of_rely (hp'.trans habove)
      ((t₀.sharing b.cwd target).rely_trans hrely hrely') ?_
    apply Classical.byContradiction
    intro hpass
    have hm' := (h.makeable_iff (hp'.trans habove)).2 hm
    have hmissing := create_child_missing .directory (hp'.normal hp) hm'.clear hm'.usable.names
      hq.anchor hq.names htext hm'.start hpass
    rw [Tree.makeDirectory, hmissing] at hrefused
    exact hfault (Except.error.inj hrefused).symm
  · exact absurd rfl hfault
  · have hpass' := passable_of_rely habove hrely hpass
    have hanswer : answer = .ok () := if_pos (hthere.2 ⟨husable, hpass'⟩)
    rw [hanswer]
    exact assures_there hdown habove hu hpass' (hmakeable h husable hpass)

/-- A single attempt at a directory. It is decided by then unless the directory above is missing. -/
theorem assures_attempt (hguard : q.child last = target ∨ checkOperand target.text = .ok ())
    (h : Underway t₀ t b.cwd target)
    (hnext : ∀ result, result ≠ .error .notFound →
      next result = acceptExisting (q.child last) result)
    (hmissing : ∀ u, (t₀.sharing b.cwd target).rely t u → Underway t₀ u b.cwd target →
      checkOperand (q.child last).text = .ok () → u.get? (q.start b.cwd) = some .directory →
      u.get? (q.location b.cwd) = none → (next (.error .notFound)).Assures b
        (t₀.sharing b.cwd target) (Reached t₀ b.cwd target q last calls) calls u) :
    (makeDirectory (q.child last) next).Assures b (t₀.sharing b.cwd target)
      (Reached t₀ b.cwd target q last calls) calls t := by
  intro u hrely
  have hu := h.of_rely hrely
  cases hmade : u.makeDirectory b.cwd (q.child last) with
  | ok u' =>
    obtain ⟨hu', hpass, hmakeable, hprepared, hsame⟩ := hu.made hnormal hdown hlinks habove hmade
    refine ⟨fun l hl => ?_, ?_⟩
    · rcases hguard with rfl | htext
      · exact .inl (hsame l fun heq => hl (heq ▸ List.prefix_refl _))
      · exact (hprepared l).imp_right fun hl => ⟨htext, hl⟩
    · dsimp only
      rw [hnext _ (by simp)]
      exact assures_there hdown habove hu' hpass hmakeable
  | error fault =>
    show (next (.error fault)).Assures b _ _ _ _
    by_cases hfault : fault = .notFound
    · subst hfault
      rcases makeDirectory_error (habove.not_up_mem hdown) (habove.normal hnormal)
        ((hu.unlinked hlinks).above habove) hmade with
        ⟨hfalse, -⟩ | ⟨-, htext, hstart, hnone⟩ | ⟨hfalse, -⟩
      · exact absurd rfl hfalse
      · exact hmissing u hrely hu htext hstart hnone
      · cases hfalse
    · rw [hnext _ (by simpa using hfault)]
      exact assures_refused hdown habove hnormal hlinks hu hmade hfault

omit hlinks in
/-- What keeps the directory above from being made. -/
theorem assures_hopeless {fault : Fault} {above : Path} {name : String} (hq : q = above.child name)
    (hreached : Reached t₀ b.cwd target above name calls (.error fault) calls t)
    (htext : checkOperand (q.child last).text = .ok ())
    (hstart : t₀.get? (q.start b.cwd) = some .directory)
    (hmissing : t₀.get? (q.location b.cwd) = none) :
    (done (.error fault)).Assures b (t₀.sharing b.cwd target)
      (Reached t₀ b.cwd target q last calls) calls t := by
  subst hq
  have hdown' := habove.not_up_mem hdown
  have hq : (above.child name).Normal :=
    fun m hm => habove.normal hnormal m (List.mem_append_left _ hm)
  have hup : name ≠ ".." := by
    rintro rfl
    exact hdown' (List.mem_append_left _ (List.mem_append_right _ (by simp)))
  have htext' := Path.checkOperand_of_child htext rfl (Path.text_child_ne_empty hq.last_ne_empty)
  rw [Path.location_child hup] at hmissing
  have hverdict := verdict_of_missing hreached.verdict.symm htext' htext hstart
    (fun hmem => hdown' (List.mem_append_left _ (List.mem_append_left _ hmem))) hmissing
  intro u hrely
  refine ⟨rfl, hreached.underway.of_rely hrely, hverdict.symm, fun hok => (by cases hok),
    fun _ p hp hm => ?_⟩
  refine passable_of_rely (hp.trans habove) hrely ?_
  rcases hp.of_child with rfl | hp'
  · rw [(verdict_ok_iff hdown').2 hm] at hverdict
    cases hverdict
  · exact hreached.above htext' p hp' hm

omit habove in
theorem assures_createDirectoriesFrom {anchor : Anchor} {above : List String} {name : String}
    (habove : (Path.child ⟨anchor, above.reverse, false⟩ name).Above target)
    (hguard : Path.child ⟨anchor, above.reverse, false⟩ name = target ∨
      checkOperand target.text = .ok ())
    (h : Underway t₀ t b.cwd target) :
    (createDirectoriesFrom anchor false (name :: above)).Assures b (t₀.sharing b.cwd target)
      (Reached t₀ b.cwd target ⟨anchor, above.reverse, false⟩ name calls) calls t := by
  have hnext {q : Path} {missing : Procedure (Except Fault Unit)} :
      ∀ result : Except Fault Unit, result ≠ .error .notFound →
        (match result with
          | .error .notFound => missing
          | result => acceptExisting q result) = acceptExisting q result := by
    intro result hne
    split
    · exact absurd rfl hne
    · rfl
  -- The induction is on the names, last one first, as the recursion takes them.
  induction above generalizing name t with
  | nil =>
    rw [createDirectoriesFrom_cons]
    refine assures_attempt hdown habove hnormal hlinks hguard h hnext
      fun u _ _ _ hstart hnone => ?_
    exact absurd (hstart.symm.trans hnone) (by simp)
  | cons upper above ih =>
    rw [createDirectoriesFrom_cons]
    refine assures_attempt hdown habove hnormal hlinks hguard h hnext
      fun u _ hu htext hstart hnone => ?_
    have hchild : (⟨anchor, (upper :: above).reverse, false⟩ : Path) =
        Path.child ⟨anchor, above.reverse, false⟩ upper := by
      rw [Path.child, List.reverse_cons]
    rw [hchild] at habove hguard htext hstart hnone ⊢
    have hupper : (Path.child ⟨anchor, above.reverse, false⟩ upper).Above target :=
      ⟨habove.anchor, rfl, (List.prefix_append _ _).trans habove.names⟩
    have hguard' : checkOperand target.text = .ok () := hguard.elim (fun heq => heq ▸ htext) id
    refine (ih hupper (.inr hguard') hu).mono (fun a made v hreached => ?_) |>.bind
    obtain rfl := hreached.calls
    cases a with
    | ok =>
      refine assures_attempt hdown habove hnormal hlinks hguard hreached.underway
        (fun _ _ => rfl) fun w hrely _ _ _ hmissing => ?_
      have hpass := passable_of_rely hupper hrely (hreached.passable rfl)
      exact absurd ((hpass _ Path.location_mem_way).symm.trans hmissing) (by simp)
    | error fault =>
      refine assures_hopeless hdown habove hnormal rfl hreached htext
        ((hu.start_above hupper).symm.trans hstart) ?_
      exact (hu.way _ (hupper.mem_way Path.location_mem_way)).grownAt.missing hnone

omit habove in
/-- Making a directory and those above it comes to what it would come to without others. -/
theorem assures_createDirectories (hq : target = q.child last) (h : Underway t₀ t b.cwd target) :
    (createDirectories target).Assures b (t₀.sharing b.cwd target)
      (Reached t₀ b.cwd target q last calls) calls t := by
  have hfrom : createDirectories target =
      createDirectoriesFrom q.anchor false (last :: q.names.reverse) := by
    rw [hq, createDirectories, Path.child, List.reverse_append]
    rfl
  have hchild : (⟨q.anchor, q.names.reverse.reverse, false⟩ : Path).child last = target := by
    rw [List.reverse_reverse, hq]
    rfl
  have hself : target.Above target := ⟨rfl, hq ▸ rfl, List.prefix_refl _⟩
  rw [hfrom]
  refine (assures_createDirectoriesFrom hdown hnormal hlinks (hchild ▸ hself) (.inl hchild) h).mono
    fun a made u hreached => ?_
  rw [List.reverse_reverse] at hreached
  exact ⟨hreached.calls, hreached.underway, hreached.verdict, hreached.passable, hreached.above⟩

omit habove in
/-- So it does without others. -/
theorem run_createDirectories_reached (hm : m.Suits b) (mounts : σ) (hq : target = q.child last) :
    ∃ answer t, (createDirectories target).run m ⟨b.cwd, t₀, mounts⟩ =
        ⟨answer, ⟨b.cwd, t, mounts⟩, []⟩ ∧
      Reached t₀ b.cwd target q last [] answer [] t := by
  have hrun := run_of_filesOnly (filesOnly_createDirectories target) m m ⟨b.cwd, t₀, mounts⟩ mounts
  have hreached := @run_assures _ _ _ _ _ _ m ⟨b.cwd, t₀, mounts⟩ hm rfl
    (assures_createDirectories hdown hnormal hlinks hq .refl)
  rw [hrun] at hreached
  exact ⟨_, _, hrun, hreached⟩

end

end Procedure
end NfsProvisioner
