import MailFilter.Proofs.Lexeme.Faults
import MailFilter.Proofs.Lexeme.Fronts

/-!
# Texts that are cut off

A literal or a comment that is cut off before its end is not read as a shorter one: the text that is left
has the tokens in front of it and breaks off at a fault, which is told of a place from its opening on.
-/

namespace MailFilter

namespace Lexeme

/-! ## Readers -/

/-- A reader takes a front of a text, and takes it again with any other text after it. -/
structure Settled {γ : Type} (read : List Char → Option (Taken γ)) : Prop where
  append : ∀ {cs : List Char} {t : Taken γ}, read cs = some t → t.text ++ t.rest = cs
  alone : ∀ {cs : List Char} {t : Taken γ}, read cs = some t →
    ∀ rest, read (t.text ++ rest) = some ⟨t.value, t.text, rest⟩

theorem Settled.cut {γ : Type} {read : List Char → Option (Taken γ)} (hread : Settled read)
    {cs cut : List Char} {t : Taken γ} (h : read cs = some t) (hcut : cut <+: t.text)
    (hne : cut ≠ t.text) : read cut = none := by
  refine Option.eq_none_iff_forall_ne_some.mpr fun u hu => hne ?_
  obtain ⟨more, hmore⟩ := hcut
  have happend := hread.append hu
  have hshort : read t.text = some ⟨u.value, u.text, u.rest ++ more⟩ := by
    rw [← hmore, ← happend, List.append_assoc]
    exact hread.alone hu _
  have hwhole : read t.text = some ⟨t.value, t.text, []⟩ := by
    simpa using hread.alone h []
  obtain ⟨-, htext, hrest⟩ := Taken.mk.inj (Option.some.inj (hshort.symm.trans hwhole))
  rw [← happend, htext, (List.append_eq_nil_iff.mp hrest).1, List.append_nil]

theorem settled_quotedTail : Settled quotedTail := ⟨quotedTail_append, quotedTail_alone⟩

theorem settled_bracketTail : Settled bracketTail := ⟨bracketTail_append, bracketTail_alone⟩

theorem settled_listTail (state : ListState) : Settled fun cs => (listTail state cs).toOption where
  append h := listTail_append (eq_ok_of_toOption h)
  alone h rest := by rw [listTail_alone (eq_ok_of_toOption h)]; rfl

/-! ## Literals and comments -/

theorem quotedString_cut {cs cut : List Char} {t : Taken String} (h : quotedString cs = .ok t)
    (hcut : '"' :: cut <+: t.text) (hne : '"' :: cut ≠ t.text) :
    quotedString cut = .error ⟨.unclosedString, none, '"' :: cut⟩ := by
  unfold quotedString at h
  split at h <;> cases h
  next u hu =>
  have hnone := settled_quotedTail.cut hu (List.cons_prefix_cons.mp hcut).2 fun heq =>
    hne (congrArg ('"' :: ·) heq)
  rw [quotedString, hnone]

theorem bracketComment_cut {cs cut : List Char} {t : Taken String} (h : bracketComment cs = .ok t)
    (hcut : '/' :: '*' :: cut <+: t.text) (hne : '/' :: '*' :: cut ≠ t.text) :
    bracketComment cut = .error ⟨.unclosedComment, none, '/' :: '*' :: cut⟩ := by
  unfold bracketComment at h
  split at h <;> cases h
  next u hu =>
  have hrest := (List.cons_prefix_cons.mp (List.cons_prefix_cons.mp hcut).2).2
  have hnone := settled_bracketTail.cut hu hrest fun heq => hne (congrArg ('/' :: '*' :: ·) heq)
  rw [bracketComment, hnone]

theorem stringList_cut {cs cut : List Char} {t : Taken (List String)} (h : stringList cs = .ok t)
    (hcut : '[' :: cut <+: t.text) (hne : '[' :: cut ≠ t.text) : ∃ b, stringList cut = .error b := by
  unfold stringList at h
  split at h <;> cases h
  next u hu =>
  have hnone := (settled_listTail .opened).cut (by rw [hu]; rfl) (List.cons_prefix_cons.mp hcut).2
    fun heq => hne (congrArg ('[' :: ·) heq)
  rw [stringList]
  cases htail : listTail .opened cut with
  | ok v =>
      rw [htail] at hnone
      cases hnone
  | error b => exact ⟨_, rfl⟩

/-- A literal or a comment with an end of its own, and what opens it. -/
inductive Encloses : List Char → Item → Prop
  | quoted (value : String) : Encloses ['"'] (.quoted value)
  | strings (values : List String) : Encloses ['['] (.strings values)
  | comment (text : String) : Encloses ['/', '*'] (.comment text)

/-- The fault at the opening of something that is not closed; lists may have others. -/
def unclosed? : Item → Option Fault
  | .quoted _ => some .unclosedString
  | .comment _ => some .unclosedComment
  | _ => none

theorem Encloses.sameAhead {opening : List Char} {item : Item} (h : Encloses opening item)
    {cs cut : List Char} (hopen : opening <+: cut) (hcs : opening <+: cs) : SameAhead cs cut := by
  obtain ⟨cut, rfl⟩ := hopen
  obtain ⟨cs, rfl⟩ := hcs
  cases h with
  | quoted | strings => exact sameAhead_cons (by decide) cs cut
  | comment =>
      rintro c ⟨⟩
      exact ⟨rfl, iff_of_true (List.prefix_append _ _) (List.prefix_append _ _)⟩

theorem Encloses.next_cut {opening : List Char} {item : Item} (hitem : Encloses opening item) {c : Char}
    {cs text rest cut : List Char} (h : next c cs = .ok ⟨some item, text, rest⟩)
    (hopen : opening <+: cut) (hcut : cut <+: text) (hne : cut ≠ text) :
    ∃ d ds b, cut = d :: ds ∧ next d ds = .error b ∧
      ∀ fault ∈ unclosed? item, b = ⟨fault, none, cut⟩ := by
  have hcs : opening <+: c :: cs := next_append h ▸ (hopen.trans hcut).trans (List.prefix_append _ _)
  obtain ⟨cut, rfl⟩ := hopen
  obtain ⟨cs', hcs⟩ := hcs
  cases hitem with
  | quoted value =>
      obtain ⟨rfl, rfl⟩ := List.cons.inj hcs
      obtain ⟨t, ht, heq⟩ := map_ok ((next_quote cs').symm.trans h)
      obtain rfl : text = t.text := congrArg Taken.text heq
      have herror := quotedString_cut ht hcut hne
      refine ⟨'"', cut, _, rfl, (next_quote cut).trans (map_eq_error.mpr herror), ?_⟩
      rintro _ ⟨⟩
      rfl
  | strings values =>
      obtain ⟨rfl, rfl⟩ := List.cons.inj hcs
      obtain ⟨t, ht, heq⟩ := map_ok ((next_openBracket cs').symm.trans h)
      obtain rfl : text = t.text := congrArg Taken.text heq
      obtain ⟨b, hb⟩ := stringList_cut ht hcut hne
      exact ⟨'[', cut, b, rfl, (next_openBracket cut).trans (map_eq_error.mpr hb), nofun⟩
  | comment comment =>
      obtain ⟨rfl, rfl⟩ := List.cons.inj hcs
      obtain ⟨t, ht, heq⟩ := map_ok ((next_openComment cs').symm.trans h)
      obtain rfl : text = t.text := congrArg Taken.text heq
      have herror := bracketComment_cut ht hcut hne
      refine ⟨'/', '*' :: cut, _, rfl, (next_openComment cut).trans (map_eq_error.mpr herror), ?_⟩
      rintro _ ⟨⟩
      rfl

end Lexeme

namespace Tokens

open Lexeme

variable {cs text opening : List Char} {ls rs : List Lexeme} {item : Item}

/-- What is left of a text that is cut off inside one of its lexemes: the lexemes in front, and some of
this one. -/
theorem take_inside (hsplit : (split cs).lexemes = ls ++ ⟨text, some item⟩ :: rs) {i k : Nat}
    (hi : (ls.flatMap (·.text)).length = i) (hfrom : i ≤ k) (hto : k < i + text.length) :
    ∃ rest, cs = ls.flatMap (·.text) ++ rest ∧ cs.take k = ls.flatMap (·.text) ++ text.take (k - i) := by
  obtain ⟨front, hcs, hfront, -⟩ := split_front hsplit
  obtain ⟨d, ds, rest, rfl, hnext, -⟩ := exists_next_of_split (congrArg Pieces.lexemes hfront)
  have htext : text ++ rest = d :: ds := next_append hnext
  refine ⟨d :: ds, hcs, ?_⟩
  rw [hcs, ← htext, List.take_append, hi, List.take_of_length_le (by omega),
    List.take_append_of_le_length (by omega)]

section Tokens

variable (width : Char → Nat) (p : Pos)

/-- The tokens of a text that is cut off inside one of its lexemes. -/
theorem ofCharsAt_cut (hsplit : (split cs).lexemes = ls ++ ⟨text, some item⟩ :: rs)
    (hitem : Encloses opening item) {cut : List Char} (hopen : opening <+: cut) (hcut : cut <+: text)
    (hne : cut ≠ text) :
    ∃ (fault : Lexeme.Fault) (lead rest : List Char), cut = lead ++ rest ∧
      (∀ expected ∈ unclosed? item, fault = expected ∧ lead = []) ∧
      ofCharsAt width p (ls.flatMap (·.text) ++ cut) =
        ⟨place width p ls,
          some (.at (.lexeme fault) (p.after width (ls.flatMap (·.text) ++ lead)))⟩ := by
  obtain ⟨front, -, hfront, hagain⟩ := split_front hsplit
  obtain ⟨c, ds, rest, rfl, hnext, -⟩ := exists_next_of_split (congrArg Pieces.lexemes hfront)
  have hcs : opening <+: c :: ds :=
    next_append hnext ▸ (hopen.trans hcut).trans (List.prefix_append _ _)
  obtain ⟨d, es, b, rfl, herror, hunclosed⟩ := hitem.next_cut hnext hopen hcut hne
  obtain ⟨told, htold, -⟩ := next_error herror
  refine ⟨b.fault, b.lead.getD [], told, htold, fun expected hexpected => ?_, ?_⟩
  · rw [hunclosed expected hexpected]
    exact ⟨rfl, rfl⟩
  · rw [ofCharsAt_front (hagain _ (List.cons_ne_nil _ _) (hitem.sameAhead hopen hcs)),
      ofCharsAt_of_error _ _ herror, Pos.after_append]
    simp only [append, List.append_nil]

theorem tokens_of_split (hsplit : (split cs).lexemes = ls ++ ⟨text, some item⟩ :: rs) :
    ∃ more, (ofCharsAt width p cs).tokens =
      place width p ls ++ ⟨item, p.after width (ls.flatMap (·.text))⟩ :: more := by
  rw [ofCharsAt, hsplit, place_append, place]
  cases (split cs).broken with
  | none => exact ⟨_, List.append_assoc _ _ _⟩
  | some b => exact ⟨_, rfl⟩

end Tokens

/-! ## The main result -/

/-- A text that is cut off inside a string in quotes, a list of strings or a bracket comment has the tokens
in front of it and no other, and breaks off at a fault.  The fault is told of a place between the opening
and the cut, and of the opening itself but for lists, in which something else may be left open. -/
theorem ofText_take {charset : String} {c : Text.Charset}
    (hcharset : Text.Charset.ofName? charset = some c) {source : String}
    (hsplit : (split source.toList).lexemes = ls ++ ⟨text, some item⟩ :: rs)
    (hitem : Encloses opening item) (hopen : opening <+: text) {i k : Nat}
    (hi : (ls.flatMap (·.text)).length = i) (hfrom : i + opening.length ≤ k)
    (hto : k < i + text.length) :
    let placeAt (m : Nat) : Pos := Pos.start.after c.width (source.toList.take m)
    (∃ more, (ofText source charset).tokens =
      place c.width .start ls ++ ⟨item, placeAt i⟩ :: more) ∧
    ∃ (fault : Lexeme.Fault) (m : Nat),
      ofText (String.ofList (source.toList.take k)) charset =
        ⟨place c.width .start ls, some (.at (.lexeme fault) (placeAt m))⟩ ∧
      i ≤ m ∧ m ≤ k ∧
      (∀ value, item = .quoted value → m = i ∧ fault.message = "Unterminated quoted string") ∧
      (∀ comment, item = .comment comment → m = i ∧ fault.message = "Unterminated bracket comment") := by
  intro placeAt
  obtain ⟨rest, hcs, htake⟩ := take_inside hsplit hi (by omega) hto
  have hplace : placeAt i = Pos.start.after c.width (ls.flatMap (·.text)) := by
    simp only [placeAt, hcs, ← hi, List.take_left]
  have hne : text.take (k - i) ≠ text := fun heq => by
    have := congrArg List.length heq
    rw [List.length_take] at this
    omega
  obtain ⟨fault, lead, told, hlead, hunclosed, hcut⟩ := ofCharsAt_cut c.width .start hsplit hitem
    (List.prefix_take_iff.mpr ⟨hopen, by omega⟩) (List.take_prefix _ _) hne
  have hlong : i + lead.length ≤ k := by
    have := congrArg List.length hlead
    rw [List.length_take, List.length_append] at this
    omega
  have htold : source.toList.take (i + lead.length) = ls.flatMap (·.text) ++ lead := by
    rw [← Nat.min_eq_left hlong, ← List.take_take, htake, hlead, ← List.append_assoc]
    exact List.take_left' (by rw [List.length_append, hi])
  rw [ofText, ofText, hcharset]
  dsimp only
  rw [ofChars_eq, ofChars_eq, String.toList_ofList, htake, hcut, hplace]
  refine ⟨tokens_of_split c.width .start hsplit, fault, i + lead.length, by simp only [placeAt, htold],
    Nat.le_add_right _ _, hlong, ?_, ?_⟩
  · rintro value rfl
    obtain ⟨rfl, rfl⟩ := hunclosed _ rfl
    exact ⟨rfl, rfl⟩
  · rintro comment rfl
    obtain ⟨rfl, rfl⟩ := hunclosed _ rfl
    exact ⟨rfl, rfl⟩

/-- A list that is cut off inside one of its strings. -/
theorem ofText_take_inside :
    Text.Charset.ofName? "utf-8" = some .utf8 ∧
      (split "keep [\"a\", \"b\"];".toList).lexemes =
        [⟨"keep".toList, some (.identifier "keep")⟩, ⟨[' '], none⟩] ++
          ⟨"[\"a\", \"b\"]".toList, some (.strings ["a", "b"])⟩ :: [⟨[';'], some .semicolon⟩] ∧
      ∃ (fault : Lexeme.Fault) (m : Nat),
        ofText (String.ofList ("keep [\"a\", \"b\"];".toList.take 12)) =
          ⟨[⟨.identifier "keep", .start⟩], some (.at (.lexeme fault)
            (Pos.start.after Text.Charset.utf8.width ("keep [\"a\", \"b\"];".toList.take m)))⟩ ∧
        5 ≤ m ∧ m ≤ 12 := by
  have hsplit : (split "keep [\"a\", \"b\"];".toList).lexemes =
      [⟨"keep".toList, some (.identifier "keep")⟩, ⟨[' '], none⟩] ++
        ⟨"[\"a\", \"b\"]".toList, some (.strings ["a", "b"])⟩ :: [⟨[';'], some .semicolon⟩] := by
    decide +kernel
  obtain ⟨-, fault, m, hcut, hfrom, hto, -⟩ := ofText_take (i := 5) (k := 12) Text.ofName?_utf8 hsplit
    (.strings _) (by decide) rfl (by decide) (by decide)
  exact ⟨Text.ofName?_utf8, hsplit, fault, m, hcut, hfrom, hto⟩

end Tokens

end MailFilter
