import MailFilter.Proofs.Lexeme.Fronts

/-!
# Looking at the first statement only

What the first statement of a text says is decided at its end: any text may follow a semicolon or a brace
that was reached.  The first value of a statement is the first one of all its values.
-/

namespace MailFilter

namespace Lexeme

theorem sign_of_next {c : Char} {ds text rest : List Char} {item : Item}
    (h : next c ds = .ok ⟨some item, text, rest⟩) (hvalue : item.hasValue = false)
    (hcomment : item.isComment = false) : sign? c = some item := by
  cases isNext_of_next h with
  | sign hsign => exact hsign
  | lineComment | bracketComment => cases hcomment
  | quoted | strings | multiline => cases hvalue
  | word =>
      unfold wordItem at hvalue
      split at hvalue
      · cases hvalue
      · split at hvalue <;> cases hvalue

end Lexeme

theorem Item.plain_of_endsStatement {item : Item} (h : item.endsStatement = true)
    (hne : item ≠ .endOfInput) : item.hasValue = false ∧ item.isComment = false := by
  cases item with
  | semicolon | openBrace | closeBrace => exact ⟨rfl, rfl⟩
  | endOfInput => exact absurd rfl hne
  | _ => cases h

namespace Tokens

open Lexeme

variable {width : Char → Nat} {p : Pos}

theorem exists_front_of_end {a : List Char} {t : Token} (h : t ∈ (ofCharsAt width p a).tokens)
    (hend : t.item.endsStatement = true) (hne : t.item ≠ .endOfInput) :
    ∃ front, ∀ b, ∃ more, ofCharsAt width p (a ++ b) = append front (cons t more) := by
  obtain ⟨hvalue, hcomment⟩ := Item.plain_of_endsStatement hend hne
  rcases exists_front_of_mem h with ⟨rfl, -⟩ | ⟨ls, rs, c, ds, text, rest, hcs, hsplit, hnext, hpos⟩
  · exact absurd rfl hne
  have hsign := sign_of_next hnext hvalue hcomment
  obtain ⟨-, -, hslash, -⟩ := not_blank_of_sign hsign
  obtain ⟨front, happend, -, hfront⟩ := split_front hsplit
  obtain rfl : front = c :: ds := List.append_cancel_left (happend.symm.trans hcs)
  refine ⟨place width p ls, fun b => ⟨ofCharsAt width (t.pos.after width [c]) (ds ++ b), ?_⟩⟩
  have hsame : SameAhead (c :: ds) (c :: (ds ++ b)) := sameAhead_cons hslash ds (ds ++ b)
  rw [hcs, List.append_assoc, List.cons_append,
    ofCharsAt_front (hfront _ (List.cons_ne_nil _ _) hsame),
    ofCharsAt_of_next width _ (next_sign hsign (ds ++ b)), ← hpos]

end Tokens

namespace Statement

/-- What comes after the end of a statement is not looked at. -/
theorem inspect_of_end {front : List Token} {t : Token} (hend : t.item.endsStatement = true)
    (mode : Mode) (more more' : Tokens) :
    inspect mode (.append front (.cons t more)) = inspect mode (.append front (.cons t more')) := by
  have htake : ∀ ts : List Token, (front ++ t :: ts).takeWhile (!·.item.endsStatement) =
      front.takeWhile (!·.item.endsStatement) := by
    intro ts
    rw [List.takeWhile_append, List.takeWhile_cons_of_neg (by simp [hend]), List.append_nil]
    split
    · next hall => exact ((List.takeWhile_prefix _).eq_of_length hall).symm
    · rfl
  have hany : ∀ ts : List Token, (front ++ t :: ts).any (·.item.endsStatement) = true := by
    intro ts
    simp [hend]
  cases mode <;>
    simp only [inspect, firstValue, values, Tokens.append, Tokens.cons, htake, hany, if_true]

theorem inspect_first_of_all {ts : Tokens} {vs : List Value} (h : inspect .all ts = .ok (.list vs)) :
    inspect .first ts = .ok (vs.head?.getD .null) := by
  obtain ⟨vs', hvalues, heq⟩ := Lexeme.map_ok (f := Value.list) h
  cases heq
  have hfound : (ts.tokens.takeWhile (!·.item.endsStatement)).filterMap (·.item.value?) = vs := by
    have := hvalues
    unfold values at this
    dsimp only at this
    split at this
    · exact Except.ok.inj this
    · split at this
      · cases this
      · exact Except.ok.inj this
  rw [inspect, firstValue, hfound, hvalues]
  cases vs <;> rfl

theorem values_of_items {ts : Tokens} {items : List Item} (h : ts.tokens.map (·.item) = items)
    (hend : items.any (·.endsStatement) = true) :
    values ts = .ok ((items.takeWhile (!·.endsStatement)).filterMap Item.value?) := by
  subst h
  rw [List.any_map, Function.comp_def] at hend
  rw [values, if_pos hend, List.takeWhile_map, List.filterMap_map]
  rfl

/-! ## The main result -/

/-- A semicolon or a brace ends what is looked at: whatever follows a text that reaches one, the values of
its first statement are the same, and so is what stops the reading.  Where all values of a statement are
found, its first value is the first of them, or null if there are none. -/
theorem inspect_append {charset : String} {c : Text.Charset}
    (hcharset : Text.Charset.ofName? charset = some c) :
    (∀ (a b : String) (t : Token), t ∈ (Tokens.ofText a charset).tokens →
      (t.item = .semicolon ∨ t.item = .openBrace ∨ t.item = .closeBrace) →
      ∀ mode, inspect mode (.ofText (a ++ b) charset) = inspect mode (.ofText a charset)) ∧
    ∀ (s : String) (vs : List Value), inspect .all (.ofText s charset) = .ok (.list vs) →
      inspect .first (.ofText s charset) = .ok (vs.head?.getD .null) := by
  refine ⟨fun a b t ht hsign mode => ?_, fun s vs h => inspect_first_of_all h⟩
  have hend : t.item.endsStatement = true ∧ t.item ≠ .endOfInput := by
    rcases hsign with h | h | h <;> rw [h] <;> exact ⟨rfl, Item.noConfusion⟩
  rw [Tokens.ofText, hcharset] at ht ⊢
  rw [Tokens.ofText, hcharset]
  dsimp only at ht ⊢
  rw [Tokens.ofChars_eq] at ht ⊢
  obtain ⟨front, hfront⟩ := Tokens.exists_front_of_end ht hend.1 hend.2
  obtain ⟨more, hmore⟩ := hfront b.toList
  obtain ⟨more', hmore'⟩ := hfront []
  rw [List.append_nil] at hmore'
  rw [String.toList_append, Tokens.ofChars_eq, hmore, hmore']
  exact inspect_of_end hend.1 mode more more'

/-- A declaration before a string that does not close. -/
theorem inspect_append_unclosed :
    Text.Charset.ofName? "utf-8" = some .utf8 ∧
      inspect .all (.ofText "require [\"a\", text:\nb\n.\n];") =
        .ok (.list [.text "require", .list [.text "a", .text "b"]]) ∧
      inspect .all (.ofText ("require [\"a\", text:\nb\n.\n];" ++ "keep \"")) =
        .ok (.list [.text "require", .list [.text "a", .text "b"]]) ∧
      inspect .first (.ofText "require [\"a\", text:\nb\n.\n];") = .ok (.text "require") := by
  have hitems : (Tokens.ofText "require [\"a\", text:\nb\n.\n];").tokens.map (·.item) =
      [.identifier "require", .strings ["a", "b"], .semicolon, .endOfInput] := by decide +kernel
  have hvalues : inspect .all (.ofText "require [\"a\", text:\nb\n.\n];") =
      .ok (.list [.text "require", .list [.text "a", .text "b"]]) := by
    rw [inspect, values_of_items hitems rfl]
    rfl
  obtain ⟨t, ht, hsign⟩ := List.mem_map.mp (hitems ▸ (by simp) :
    Item.semicolon ∈ (Tokens.ofText "require [\"a\", text:\nb\n.\n];").tokens.map (·.item))
  obtain ⟨happend, hfirst⟩ := inspect_append Text.ofName?_utf8
  exact ⟨Text.ofName?_utf8, hvalues, (happend _ "keep \"" t ht (.inl hsign) .all).trans hvalues,
    hfirst _ _ hvalues⟩

end Statement

end MailFilter
