import Mathlib.Data.List.Forall2
import NfsProvisioner.Proofs.JsonText

/-!
# JSON texts put together from others

A text that is read keeps its reading when more text follows it, unless a number would go on. So the
texts of values can be put between brackets, with commas between them, and are read as the items of
an array or, after names, as the members of an object: each value takes up its own text and nothing
of what stands around it.
-/
namespace NfsProvisioner

namespace Token

theorem endsNumber_cons {c : Char} (h : isDigit c = false ∧ c ≠ '.' ∧ c ≠ 'e' ∧ c ≠ 'E')
    (rest : List Char) : EndsNumber (c :: rest) := by
  intro d hd
  obtain rfl := Option.some.inj hd
  exact h

theorem readPieces_append {text others : List Char} {pieces : List Piece}
    (h : readPieces text = some (pieces, others)) (rest : List Char) :
    readPieces (text ++ rest) = some (pieces, others ++ rest) := by
  fun_induction readPieces text generalizing pieces others with
  | case1 => cases h
  | case2 after =>
    cases h
    rfl
  | case3 a b c d after ih =>
    simp only [Option.bind_eq_bind, Option.bind_eq_some_iff] at h
    obtain ⟨n, hn, ⟨read, following⟩, hread, heq⟩ := h
    cases heq
    simp only [List.cons_append]
    rw [readPieces_unit hn, ih hread]
    rfl
  | case4 e after hshort ih =>
    simp only [Option.bind_eq_bind, Option.bind_eq_some_iff] at h
    obtain ⟨c, hc, ⟨read, following⟩, hread, heq⟩ := h
    cases heq
    have hu : e ≠ 'u' := by
      rintro rfl
      cases hc
    simp only [List.cons_append]
    rw [readPieces_escape hc hu, ih hread]
    rfl
  | case5 c after hquote hunit hescape hrefused => cases h
  | case6 c after hquote hunit hescape hplain ih =>
    simp only [Option.bind_eq_bind, Option.bind_eq_some_iff] at h
    obtain ⟨⟨read, following⟩, hread, heq⟩ := h
    cases heq
    obtain ⟨hcontrol, hbackslash⟩ := not_or.1 hplain
    simp only [List.cons_append]
    rw [readPieces_char hquote hbackslash hcontrol, ih hread]
    rfl

/-- Digits that end with the text end also before anything that does not go on with a number. -/
theorem takeWhile_isDigit_append (text : List Char) {rest : List Char} (h : EndsNumber rest) :
    (text ++ rest).takeWhile isDigit = text.takeWhile isDigit ∧
      (text ++ rest).dropWhile isDigit = text.dropWhile isDigit ++ rest := by
  induction text with
  | nil =>
    cases rest with
    | nil => exact ⟨rfl, rfl⟩
    | cons c rest => simp [(h c rfl).1]
  | cons c text ih =>
    cases hc : isDigit c with
    | false => simp [hc]
    | true => simp [hc, ih]

theorem readWhole_append {text digits others rest : List Char}
    (h : readWhole text = some (digits, others)) (hrest : EndsNumber rest) :
    readWhole (text ++ rest) = some (digits, others ++ rest) := by
  unfold readWhole at h
  split at h
  · next after =>
    cases h
    rfl
  next hzero =>
  split at h
  · cases h
  next digits' hdigits =>
  cases h
  obtain ⟨htake, hdrop⟩ := takeWhile_isDigit_append text hrest
  rw [readWhole, htake, hdrop]
  · split
    · next hnil => exact absurd hnil hdigits
    · rfl
  · intro after heq
    cases text with
    | nil => exact hdigits rfl
    | cons c text => exact hzero text (congrArg (· :: text) (List.cons.inj heq).1)

theorem readFraction_append {text digits others rest : List Char}
    (h : readFraction text = some (digits, others)) (hrest : EndsNumber rest) :
    readFraction (text ++ rest) = some (digits, others ++ rest) := by
  unfold readFraction at h
  split at h
  · next after =>
    split at h
    · cases h
    next digits' hdigits =>
    cases h
    obtain ⟨htake, hdrop⟩ := takeWhile_isDigit_append after hrest
    rw [List.cons_append, readFraction, htake, hdrop]
    split
    · next hnil => exact absurd hnil hdigits
    · rfl
  · next hpoint =>
    cases h
    rw [readFraction]
    intro after heq
    cases text with
    | nil => exact (hrest '.' (congrArg List.head? heq)).2.1 rfl
    | cons c text => exact hpoint text (congrArg (· :: text) (List.cons.inj heq).1)

theorem readSign_append {text : List Char} (h : text ≠ []) (rest : List Char) :
    readSign (text ++ rest) = ((readSign text).1, (readSign text).2 ++ rest) := by
  cases text with
  | nil => exact absurd rfl h
  | cons c text =>
    by_cases hplus : c = '+'
    · subst hplus
      rfl
    by_cases hminus : c = '-'
    · subst hminus
      rfl
    simp [readSign, hplus, hminus]

theorem readExponent_append {text digits others rest : List Char}
    (h : readExponent text = some (digits, others)) (hrest : EndsNumber rest) :
    readExponent (text ++ rest) = some (digits, others ++ rest) := by
  cases text with
  | nil =>
    cases h
    cases rest with
    | nil => rfl
    | cons c rest =>
      obtain ⟨-, -, he, hE⟩ := hrest c rfl
      simp [readExponent, he, hE]
  | cons c text =>
    rw [readExponent] at h
    rw [List.cons_append, readExponent]
    split at h
    · next he =>
      rw [if_pos he]
      have htext : text ≠ [] := by
        rintro rfl
        cases h
      rw [readSign_append htext]
      obtain ⟨htake, hdrop⟩ := takeWhile_isDigit_append (readSign text).2 hrest
      dsimp only at h ⊢
      rw [htake, hdrop]
      split at h
      · cases h
      · cases h
        rfl
    · next he =>
      cases h
      exact if_neg he

theorem readNumber_append {text others rest : List Char} {t : Token}
    (h : readNumber text = some (t, others)) (hrest : EndsNumber rest) :
    readNumber (text ++ rest) = some (t, others ++ rest) := by
  have hne : text ≠ [] := by
    rintro rfl
    cases h
  unfold readNumber at h
  split at h
  next minus unsigned hsign =>
  simp only [Option.bind_eq_bind, Option.bind_eq_some_iff] at h
  obtain ⟨⟨whole, afterWhole⟩, hwhole, ⟨fraction, afterFraction⟩, hfraction,
    ⟨exponent, afterExponent⟩, hexponent, heq⟩ := h
  have hwhole' := readWhole_append hwhole hrest
  have hfraction' := readFraction_append hfraction hrest
  have hexponent' := readExponent_append hexponent hrest
  cases heq
  unfold readNumber
  split at hsign
  · next after =>
    cases hsign
    simp [hwhole', hfraction', hexponent']
  · next hminus =>
    cases hsign
    split
    next minus' unsigned' hsign' =>
    split at hsign'
    · next after heq =>
      cases text with
      | nil => exact absurd rfl hne
      | cons c text => exact absurd (congrArg (· :: text) (List.cons.inj heq).1) (hminus text)
    · cases hsign'
      simp [hwhole', hfraction', hexponent']

theorem readWhole_ne_none {text : List Char} (h : readWhole text ≠ none) :
    ∃ c tail, text = c :: tail ∧ isDigit c = true := by
  cases text with
  | nil => exact absurd rfl h
  | cons c tail =>
    refine ⟨c, tail, rfl, ?_⟩
    cases hc : isDigit c with
    | true => rfl
    | false =>
      have hzero : c ≠ '0' := by
        rintro rfl
        cases hc
      exact absurd (by simp [readWhole, hzero, hc]) h

theorem readNumber_head {text others : List Char} {t : Token}
    (h : readNumber text = some (t, others)) :
    ∃ c tail, text = c :: tail ∧ (c = '-' ∨ isDigit c = true) := by
  unfold readNumber at h
  split at h
  next minus unsigned hsign =>
  split at hsign
  · next tail => exact ⟨'-', tail, rfl, .inl rfl⟩
  · cases hsign
    have hwhole : readWhole text ≠ none := by
      intro hnone
      simp [hnone] at h
    obtain ⟨c, tail, rfl, hc⟩ := readWhole_ne_none hwhole
    exact ⟨c, tail, rfl, .inr hc⟩

/-- A token keeps its reading before what does not go on with a number. -/
theorem readToken_append {text others rest : List Char} {t : Token}
    (h : readToken text = some (t, others)) (hrest : EndsNumber rest) :
    readToken (text ++ rest) = some (t, others ++ rest) := by
  unfold readToken at h
  split at h
  case h_10 after =>
    simp only [readString, Option.bind_eq_bind, Option.bind_eq_some_iff] at h
    obtain ⟨⟨pieces, following⟩, hread, heq⟩ := h
    cases heq
    rw [List.cons_append, readToken, readString, readPieces_append hread]
    rfl
  case h_11 =>
    obtain ⟨c, tail, rfl, hc⟩ := readNumber_head h
    have hnumber := readNumber_append h hrest
    rw [List.cons_append] at hnumber ⊢
    rcases hc with rfl | hc
    · exact hnumber
    · rw [readToken_digit hc, hnumber]
  all_goals
    cases h
    rfl

theorem readAllWithin_mono {text : List Char} {tokens : List Token} {bound : Nat}
    (h : readAllWithin bound text = some tokens) (more : Nat) :
    readAllWithin (bound + more) text = some tokens := by
  fun_induction readAllWithin bound text generalizing tokens with
  | case1 bound =>
    cases h
    cases bound + more <;> rfl
  | case2 => cases h
  | case3 bound c rest hgap ih =>
    rw [Nat.succ_add, readAllWithin, if_pos hgap]
    exact ih h
  | case4 bound c rest hgap ih =>
    simp only [Option.bind_eq_bind, Option.bind_eq_some_iff] at h
    obtain ⟨⟨t, others⟩, ht, read, hread, heq⟩ := h
    cases heq
    rw [Nat.succ_add, readAllWithin, if_neg hgap, ht]
    simp [ih others hread]

theorem readAllWithin_append {text rest : List Char} {tokens others : List Token} {bound more : Nat}
    (h : readAllWithin bound text = some tokens) (hothers : readAllWithin more rest = some others)
    (hrest : EndsNumber rest) :
    readAllWithin (bound + more) (text ++ rest) = some (tokens ++ others) := by
  fun_induction readAllWithin bound text generalizing tokens with
  | case1 bound =>
    cases h
    rw [Nat.add_comm]
    exact readAllWithin_mono hothers bound
  | case2 => cases h
  | case3 bound c text hgap ih =>
    rw [Nat.succ_add, List.cons_append, readAllWithin, if_pos hgap]
    exact ih h
  | case4 bound c text hgap ih =>
    simp only [Option.bind_eq_bind, Option.bind_eq_some_iff] at h
    obtain ⟨⟨t, after⟩, ht, read, hread, heq⟩ := h
    cases heq
    have htoken := readToken_append ht hrest
    rw [List.cons_append] at htoken ⊢
    rw [Nat.succ_add, readAllWithin, if_neg hgap, htoken]
    simp [ih after hread]

/-- Two texts, one after the other, are read as the tokens of both. -/
theorem readAll_append {text rest : List Char} {tokens others : List Token}
    (h : readAll text = some tokens) (hothers : readAll rest = some others)
    (hrest : EndsNumber rest) : readAll (text ++ rest) = some (tokens ++ others) := by
  rw [readAll, List.length_append]
  exact readAllWithin_append h hothers hrest

end Token

namespace Json

/-- A value that has been read whole is read also inside of what is open and before more tokens. -/
theorem ofTokensFrom_append {expecting : Expecting} {stack : List Frame} {tokens : List Token}
    {j : Json} (h : ofTokensFrom expecting stack tokens = some j) (below : List Frame)
    (rest : List Token) :
    ofTokensFrom expecting (stack ++ below) (tokens ++ rest) =
      ofTokensFrom (.after j) below rest := by
  fun_induction ofTokensFrom expecting stack tokens generalizing j
  case case1 =>
    cases h
    rfl
  case case2 | case18 | case25 | case26 => cases h
  -- What is open decides only whether an array may end here, and no item starts with its end.
  case case19 ih | case20 ih | case21 ih | case22 ih | case23 ih | case24 ih =>
    rw [List.cons_append, ofTokensFrom_firstItem, ofTokensFrom]
    · exact ih h
    · intro heq
      cases heq
  all_goals
    next ih =>
    simp only [List.cons_append, ofTokensFrom]
    exact ih h

/-- The text of an array, given the text of each item. -/
def arrayText (items : List String) : String :=
  "[" ++ ",".intercalate items ++ "]"

/-- The text of an object, given the texts of names and values. -/
def objectText (members : List (String × String)) : String :=
  "\x7b" ++ ",".intercalate (members.map fun (name, value) => name ++ ":" ++ value) ++ "\x7d"

/-- What follows the first piece of a text in brackets. -/
def afterFirst (close : Char) (pieces : List String) : List Char :=
  pieces.flatMap (fun piece => ',' :: piece.toList) ++ [close]

theorem afterFirst_cons (close : Char) (piece : String) (pieces : List String) :
    afterFirst close (piece :: pieces) = ',' :: (piece.toList ++ afterFirst close pieces) := by
  simp [afterFirst]

theorem toList_intercalate_comma (close : Char) (piece : String) (pieces : List String) :
    (",".intercalate (piece :: pieces)).toList ++ [close] =
      piece.toList ++ afterFirst close pieces := by
  induction pieces generalizing piece with
  | nil => simp [afterFirst]
  | cons other pieces ih =>
    rw [String.intercalate_cons_cons, String.toList_append, String.toList_append, List.append_assoc,
      ih, afterFirst_cons]
    simp

/-- A text that stands before the colon of a member, and the name that it gives. -/
def IsName (text : String) (name : Option String) : Prop :=
  Token.readAll text.toList = some [.string name]

theorem endsNumber_afterFirst {close : Char} (h : Token.EndsNumber [close]) (pieces : List String) :
    Token.EndsNumber (afterFirst close pieces) := by
  cases pieces with
  | nil => exact h
  | cons piece pieces =>
    rw [afterFirst_cons]
    exact Token.endsNumber_cons (by decide) _

theorem readAll_cons {c : Char} {t : Token} (hgap : Token.isGap c = false)
    (ht : ∀ rest, Token.readToken (c :: rest) = some (t, rest)) {rest : List Char}
    {tokens : List Token} (h : Token.readAll rest = some tokens) :
    Token.readAll (c :: rest) = some (t :: tokens) := by
  rw [Token.readAll] at h ⊢
  rw [List.length_cons, Token.readAllWithin, hgap, ht]
  simp [h]

/-- The items after the first, each with its own text, go on with an array that is open. -/
theorem items_after {texts : List String} {items : List Json}
    (h : List.Forall₂ (fun text item => parse text = some item) texts items) :
    ∃ tokens, Token.readAll (afterFirst ']' texts) = some tokens ∧
      ∀ j done, ofTokensFrom (.after j) [.array done] tokens =
        some (.array (done.reverse ++ j :: items)) := by
  induction h with
  | nil => exact ⟨[.closeArray], rfl, fun j done => by simp [ofTokensFrom]⟩
  | @cons text item texts items hitem _ ih =>
    obtain ⟨others, hothers, hlast⟩ := ih
    obtain ⟨own, hown, hvalue⟩ := Option.bind_eq_some_iff.1 hitem
    refine ⟨.comma :: (own ++ others), ?_, fun j done => ?_⟩
    · have hends : Token.EndsNumber (afterFirst ']' texts) :=
        endsNumber_afterFirst (Token.endsNumber_cons (by decide) []) texts
      rw [afterFirst_cons]
      exact readAll_cons rfl (fun _ => rfl) (Token.readAll_append hown hothers hends)
    · have hnext := ofTokensFrom_append hvalue [.array (j :: done)] others
      rw [ofTokensFrom]
      exact hnext.trans (by simp [hlast])

theorem ofTokensFrom_firstItem_nil (tokens : List Token) :
    ofTokensFrom .firstItem [] tokens = ofTokensFrom .value [] tokens := by
  rcases tokens with _ | ⟨t, tokens⟩
  · rfl
  · cases t <;> rfl

/-- Values between brackets, with commas between them, are read as the items of an array. -/
theorem parse_arrayText {texts : List String} {items : List Json}
    (h : List.Forall₂ (fun text item => parse text = some item) texts items) :
    parse (arrayText texts) = some (.array items) := by
  cases h with
  | nil => rfl
  | @cons text item texts items hitem hitems =>
    obtain ⟨others, hothers, hlast⟩ := items_after hitems
    obtain ⟨own, hown, hvalue⟩ := Option.bind_eq_some_iff.1 hitem
    have hends : Token.EndsNumber (afterFirst ']' texts) :=
      endsNumber_afterFirst (Token.endsNumber_cons (by decide) []) texts
    have hread : Token.readAll (arrayText (text :: texts)).toList =
        some (.openArray :: (own ++ others)) := by
      rw [arrayText, String.toList_append, String.toList_append, List.append_assoc]
      change Token.readAll ('[' :: ((",".intercalate (text :: texts)).toList ++ [']'])) = _
      rw [toList_intercalate_comma]
      exact readAll_cons rfl (fun _ => rfl) (Token.readAll_append hown hothers hends)
    have hfirst := ofTokensFrom_append ((ofTokensFrom_firstItem_nil own).trans hvalue) [.array []]
      others
    rw [parse, hread, Option.bind_some, ofTokens, ofTokensFrom]
    exact hfirst.trans (hlast item [])

/-- The texts of a member's name and value. -/
def IsMember (texts : String × String) (member : Option String × Json) : Prop :=
  IsName texts.1 member.1 ∧ parse texts.2 = some member.2

theorem IsMember.readAll {name value : String} {member : Option String × Json}
    (h : IsMember (name, value) member) :
    ∃ own, ofTokens own = some member.2 ∧
      ∀ {rest others}, Token.readAll rest = some others → Token.EndsNumber rest →
        Token.readAll ((name ++ ":" ++ value).toList ++ rest) =
          some (.string member.1 :: .colon :: (own ++ others)) := by
  obtain ⟨own, hown, hvalue⟩ := Option.bind_eq_some_iff.1 h.2
  refine ⟨own, hvalue, fun {rest others} hothers hends => ?_⟩
  have hcolon : Token.readAll (':' :: (value.toList ++ rest)) = some (.colon :: (own ++ others)) :=
    readAll_cons rfl (fun _ => rfl) (Token.readAll_append hown hothers hends)
  have hname := Token.readAll_append h.1 hcolon (Token.endsNumber_cons (by decide) _)
  simpa using hname

/-- The members after the first go on with an object that is open. -/
theorem members_after {texts : List (String × String)} {members : List (Option String × Json)}
    (h : List.Forall₂ IsMember texts members) :
    ∃ tokens, Token.readAll (afterFirst '\x7d' (texts.map fun (name, value) =>
        name ++ ":" ++ value)) = some tokens ∧
      ∀ name j done, ofTokensFrom (.after j) [.object done name] tokens =
        some (.object (done.reverse ++ (name, j) :: members)) := by
  induction h with
  | nil => exact ⟨[.closeObject], rfl, fun name j done => by simp [ofTokensFrom]⟩
  | @cons pair member texts members hmember _ ih =>
    obtain ⟨others, hothers, hlast⟩ := ih
    obtain ⟨own, hvalue, hread⟩ := hmember.readAll
    refine ⟨.comma :: .string member.1 :: .colon :: (own ++ others), ?_, fun name j done => ?_⟩
    · rw [List.map_cons, afterFirst_cons]
      refine readAll_cons rfl (fun _ => rfl) (hread hothers ?_)
      exact endsNumber_afterFirst (Token.endsNumber_cons (by decide) []) _
    · have hnext := ofTokensFrom_append hvalue [.object ((name, j) :: done) member.1] others
      rw [ofTokensFrom, ofTokensFrom, ofTokensFrom]
      exact hnext.trans (by simp [hlast])

/-- Names and values between braces are read as the members of an object. -/
theorem parse_objectText {texts : List (String × String)} {members : List (Option String × Json)}
    (h : List.Forall₂ IsMember texts members) :
    parse (objectText texts) = some (.object members) := by
  cases h with
  | nil => rfl
  | @cons pair member texts members hmember hmembers =>
    obtain ⟨others, hothers, hlast⟩ := members_after hmembers
    obtain ⟨own, hvalue, hread⟩ := hmember.readAll
    have htokens : Token.readAll (objectText (pair :: texts)).toList =
        some (.openObject :: .string member.1 :: .colon :: (own ++ others)) := by
      rw [objectText, String.toList_append, String.toList_append, List.append_assoc, List.map_cons]
      change Token.readAll ('\x7b' :: ((",".intercalate (_ :: _)).toList ++ ['\x7d'])) = _
      rw [toList_intercalate_comma]
      refine readAll_cons rfl (fun _ => rfl) (hread hothers ?_)
      exact endsNumber_afterFirst (Token.endsNumber_cons (by decide) []) _
    have hfirst := ofTokensFrom_append hvalue [.object [] member.1] others
    rw [parse, htokens, Option.bind_some, ofTokens, ofTokensFrom, ofTokensFrom, ofTokensFrom]
    exact hfirst.trans (hlast member.1 member.2 [])

/-- A name in quotes, as it is written. -/
theorem isName_render (name : String) : IsName (text name).render (some name) := by
  have hreadable : Token.Readable (text name).tokens := ⟨trivial, nofun, trivial⟩
  rw [IsName, render, String.toList_ofList, Token.readAll_texts hreadable]
  rfl

end Json
end NfsProvisioner
