import Mathlib.Data.List.Forall2
import NfsProvisioner.Proofs.JsonText
import NfsProvisioner.Wire.Form

/-!
# The order of members

The members of an object stand in the order in which they are written. For a map that is whatever
order its entries are kept in, and so a value can be written in several ways, which differ in the
order of members only (`Json.Reordered`).
-/
namespace NfsProvisioner

variable {α β : Type}

theorem exists_of_cons_perm {a : α} {l l' : List α} (h : (a :: l).Perm l') :
    ∃ before after, l' = before ++ a :: after ∧ l.Perm (before ++ after) := by
  obtain ⟨before, after, rfl⟩ := List.append_of_mem (h.subset List.mem_cons_self)
  exact ⟨before, after, rfl, (h.trans List.perm_middle).cons_inv⟩

/-- Whatever order the values of a function are put in, its arguments can be put in, too. -/
theorem exists_of_map_perm {f : α → β} {l : List α} {values : List β}
    (h : (l.map f).Perm values) : ∃ l', l.Perm l' ∧ values = l'.map f := by
  induction l generalizing values with
  | nil => exact ⟨[], .nil, h.symm.eq_nil⟩
  | cons a l ih =>
    obtain ⟨before, after, rfl, hrest⟩ := exists_of_cons_perm h
    obtain ⟨l', hl', hvalues⟩ := ih hrest
    obtain ⟨first, second, rfl, rfl, rfl⟩ := List.append_eq_map_iff.1 hvalues
    exact ⟨first ++ a :: second, (hl'.cons a).trans List.perm_middle.symm, by simp⟩

theorem forall_of_forall₂ {related : α → β → Prop} {property : β → Prop} {as : List α}
    {bs : List β} (h : List.Forall₂ related as bs)
    (hproperty : ∀ a ∈ as, ∀ b, related a b → property b) : ∀ b ∈ bs, property b := by
  induction h with
  | nil => nofun
  | cons hab _ ih =>
    obtain ⟨hfirst, hrest⟩ := List.forall_mem_cons.1 hproperty
    exact List.forall_mem_cons.2 ⟨hfirst _ hab, ih hrest⟩

namespace Json

/-- Members with names that stand for texts. -/
def labelled (members : List (String × Json)) : List (Option String × Json) :=
  members.map fun (name, value) => (some name, value)

theorem names_labelled (members : List (String × Json)) :
    (labelled members).map Prod.fst = (members.map Prod.fst).map some := by
  simp [labelled, Function.comp_def]

mutual

/-- The same value, where the members of objects may stand in another order. -/
inductive Reordered : Json → Json → Prop
  | null : Reordered null null
  | bool (b : Bool) : Reordered (bool b) (bool b)
  | number (n : JsonNumber) : Reordered (number n) (number n)
  | string (s : Option String) : Reordered (string s) (string s)
  | array {items items' : List Json} (h : List.Forall₂ Reordered items items') :
      Reordered (array items) (array items')
  | object {members changed members' : List (Option String × Json)}
      (h : MembersReordered members changed) (horder : changed.Perm members') :
      Reordered (object members) (object members')

/-- The same members in the same order, where their values may differ in that way. -/
inductive MembersReordered :
    List (Option String × Json) → List (Option String × Json) → Prop
  | nil : MembersReordered [] []
  | cons {name : Option String} {j j' : Json} {members members' : List (Option String × Json)}
      (hj : Reordered j j') (h : MembersReordered members members') :
      MembersReordered ((name, j) :: members) ((name, j') :: members')

end

theorem membersReordered_self {members : List (String × Json)}
    (h : ∀ member ∈ members, member.2.Reordered member.2) :
    MembersReordered (labelled members) (labelled members) := by
  induction members with
  | nil => exact .nil
  | cons member members ih =>
    obtain ⟨hmember, hmembers⟩ := List.forall_mem_cons.1 h
    exact .cons hmember (ih hmembers)

theorem Legible.reordered_self {j : Json} (h : j.Legible) : j.Reordered j := by
  induction h with
  | null => exact .null
  | bool b => exact .bool b
  | natural n => exact .number _
  | text s => exact .string _
  | array _ ih => exact .array (List.forall₂_same.2 ih)
  | record _ ih => exact .object (membersReordered_self ih) (.refl _)

theorem MembersReordered.names_eq {members changed : List (Option String × Json)}
    (h : MembersReordered members changed) : changed.map Prod.fst = members.map Prod.fst := by
  induction members generalizing changed with
  | nil =>
    cases h
    rfl
  | cons member members ih =>
    cases h with
    | @cons name _ _ _ _ _ h => exact congrArg (name :: ·) (ih h)

/-- What the values of members have in whatever order their own members stand, the changed values
have. -/
theorem exists_of_membersReordered {property : Json → Prop} {members : List (String × Json)}
    {changed : List (Option String × Json)} (h : MembersReordered (labelled members) changed)
    (hproperty : ∀ member ∈ members, ∀ j, member.2.Reordered j → property j) :
    ∃ others, changed = labelled others ∧ ∀ other ∈ others, property other.2 := by
  induction members generalizing changed with
  | nil =>
    cases h
    exact ⟨[], rfl, nofun⟩
  | cons member members ih =>
    obtain ⟨hmember, hmembers⟩ := List.forall_mem_cons.1 hproperty
    cases h with
    | @cons _ _ j' _ _ hj h =>
      obtain ⟨others, rfl, hothers⟩ := ih h hmembers
      exact ⟨(member.1, j') :: others, rfl,
        List.forall_mem_cons.2 ⟨hmember j' hj, hothers⟩⟩

/-- What can be read from its text can be read in another order. -/
theorem Legible.of_reordered {j j' : Json} (hj : j.Legible) (h : j.Reordered j') : j'.Legible := by
  induction hj generalizing j' with
  | null | bool b | natural n | text s =>
    cases h
    constructor
  | @array items _ ih =>
    cases h with
    | array h => exact .array (forall_of_forall₂ h fun item hitem _ hj => ih item hitem hj)
  | @record members _ ih =>
    cases h with
    | object h horder =>
      obtain ⟨others, rfl, hothers⟩ :=
        exists_of_membersReordered h fun member hmember _ hj => ih member hmember hj
      obtain ⟨others', hperm, rfl⟩ := exists_of_map_perm horder
      exact .record fun member hmember => hothers member (hperm.symm.subset hmember)

/-- There is one way to write a text. -/
theorem Reordered.of_text {s : String} {j : Json} (h : (text s).Reordered j) : j = text s := by
  cases h
  rfl

/-- An object that holds texts holds them in another order. -/
theorem Reordered.of_texts {entries : List (String × String)} {j : Json}
    (h : (Json.object (entries.map fun entry => (some entry.1, text entry.2))).Reordered j) :
    ∃ entries', entries.Perm entries' ∧
      j = .object (entries'.map fun entry => (some entry.1, text entry.2)) := by
  have hsame {entries : List (String × String)} {changed : List (Option String × Json)}
      (h : MembersReordered (entries.map fun entry => (some entry.1, text entry.2)) changed) :
      changed = entries.map fun entry => (some entry.1, text entry.2) := by
    induction entries generalizing changed with
    | nil =>
      cases h
      rfl
    | cons entry entries ih =>
      cases h with
      | cons hj h =>
        rw [hj.of_text, ih h]
        rfl
  cases h with
  | object h horder =>
    rw [hsame h] at horder
    obtain ⟨entries', hperm, rfl⟩ := exists_of_map_perm horder
    exact ⟨entries', hperm, rfl⟩

theorem Reordered.of_variant {name : String} {payload j : Json}
    (h : (variant name payload).Reordered j) :
    ∃ payload', payload.Reordered payload' ∧ j = variant name payload' := by
  cases h with
  | object h horder =>
    cases h with
    | cons hpayload h =>
      cases h
      cases List.singleton_perm.1 horder
      exact ⟨_, hpayload, rfl⟩

end Json
end NfsProvisioner
