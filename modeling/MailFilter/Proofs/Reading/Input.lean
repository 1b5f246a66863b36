import MailFilter.Proofs.Lexeme.Words
import MailFilter.Tokens

/-!
# The input of a reader

A text that splits without a fault is read as its tokens and the end of the input after them; no other
text has all its tokens.  The charset of a text matters for the places of its tokens only.
-/

namespace MailFilter.Reading

theorem map_place (width : Char → Nat) (p : Pos) (ls : List Lexeme) :
    (Tokens.place width p ls).map (·.item) = ls.filterMap (·.item) := by
  induction ls generalizing p with
  | nil => rfl
  | cons l ls ih =>
      rw [Tokens.place, List.filterMap_cons]
      cases l.item with
      | none => exact ih _
      | some item => rw [List.map_cons, ih]

theorem complete_of_not_broken {charset source : String} {c : Text.Charset}
    (hcharset : Text.Charset.ofName? charset = some c)
    (h : (Lexeme.split source.toList).broken = none) :
    ∃ ts p, (Tokens.ofText source charset).complete = .ok (ts ++ [⟨.endOfInput, p⟩]) ∧
      ts.map (·.item) = (Lexeme.split source.toList).lexemes.filterMap (·.item) := by
  refine ⟨_, Tokens.placeAfter c.width .start (Lexeme.split source.toList).lexemes, ?_,
    map_place c.width .start _⟩
  rw [Tokens.ofText, hcharset]
  simp only [Tokens.ofChars, h, Tokens.complete]

theorem complete_of_spells {charset source : String} {c : Text.Charset} {items : List Item}
    (hcharset : Text.Charset.ofName? charset = some c) (h : Lexeme.Spells source.toList items) :
    ∃ ts p, (Tokens.ofText source charset).complete = .ok (ts ++ [⟨.endOfInput, p⟩]) ∧
      ts.map (·.item) = items := by
  obtain ⟨ts, p, hcomplete, hitems⟩ := complete_of_not_broken hcharset h.1
  exact ⟨ts, p, hcomplete, hitems.trans h.2⟩

theorem ofChars_of_complete {charset source : String} {tokens : List Token}
    (h : (Tokens.ofText source charset).complete = .ok tokens) :
    ∃ width, (Tokens.ofChars width source.toList).complete = .ok tokens := by
  unfold Tokens.ofText at h
  split at h
  · exact ⟨_, h⟩
  · unfold Tokens.ofUnknown at h
    dsimp only at h
    split at h
    · cases h
    · exact ⟨_, h⟩

theorem items_of_complete {charset source : String} {tokens : List Token}
    (h : (Tokens.ofText source charset).complete = .ok tokens) :
    ∃ ts p, tokens = ts ++ [⟨.endOfInput, p⟩] ∧
      ts.map (·.item) = (Lexeme.split source.toList).lexemes.filterMap (·.item) := by
  obtain ⟨width, h⟩ := ofChars_of_complete h
  unfold Tokens.ofChars at h
  cases hbroken : (Lexeme.split source.toList).broken with
  | some b =>
      simp only [hbroken, Tokens.complete] at h
      cases h
  | none =>
      simp only [hbroken, Tokens.complete] at h
      exact ⟨_, _, (Except.ok.inj h).symm, map_place width .start _⟩

theorem sound_of_complete {charset source : String} {tokens : List Token}
    (h : (Tokens.ofText source charset).complete = .ok tokens) :
    ∃ ts p, tokens = ts ++ [⟨.endOfInput, p⟩] ∧ ∀ t ∈ ts, t.item.IsSound := by
  obtain ⟨ts, p, rfl, hitems⟩ := items_of_complete h
  refine ⟨ts, p, rfl, fun t ht => ?_⟩
  have hmem : t.item ∈ (Lexeme.split source.toList).lexemes.filterMap (·.item) := by
    rw [← hitems]
    exact List.mem_map_of_mem ht
  obtain ⟨l, hl, hitem⟩ := List.mem_filterMap.1 hmem
  exact Lexeme.isSound_of_split hl t.item hitem

theorem isNumber_of_complete {charset source text : String} {tokens : List Token} {t : Token}
    (h : (Tokens.ofText source charset).complete = .ok tokens) (ht : t ∈ tokens)
    (hitem : t.item = .number text) : Lexeme.isNumber text.toList = true := by
  obtain ⟨ts, p, rfl, hsound⟩ := sound_of_complete h
  rcases List.mem_append.1 ht with ht | ht
  · have hnumber := hsound t ht
    rwa [hitem] at hnumber
  · rw [List.mem_singleton.1 ht] at hitem
    cases hitem

end MailFilter.Reading
