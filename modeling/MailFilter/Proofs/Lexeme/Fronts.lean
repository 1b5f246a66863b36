import MailFilter.Proofs.Lexeme.Scanning

/-!
# Front parts of a text

The lexemes at the front of a text depend on what comes after them only as far as a reader looks ahead:
before any text that goes on alike they are the same, and the rest is read on its own.
-/

namespace MailFilter

namespace Lexeme

theorem split_nil : split [] = ⟨[], none⟩ := by
  rw [split.eq_def]

theorem exists_next_of_split {cs : List Char} {l : Lexeme} {ls : List Lexeme}
    (h : (split cs).lexemes = l :: ls) :
    ∃ c ds rest, cs = c :: ds ∧ next c ds = .ok ⟨l.item, l.text, rest⟩ ∧
      split rest = ⟨ls, (split cs).broken⟩ := by
  cases cs with
  | nil =>
      rw [split_nil] at h
      cases h
  | cons c ds =>
      cases hnext : next c ds with
      | error b =>
          rw [split_of_error hnext] at h
          cases h
      | ok t =>
          rw [split_of_next hnext] at h ⊢
          cases h
          exact ⟨c, ds, t.rest, rfl, hnext, rfl⟩

/-- A text splits after any of its lexemes.  The lexemes in front are also those of every text that goes
on alike, and its other lexemes are those of what it goes on with. -/
theorem split_front {cs : List Char} {ls rs : List Lexeme} (h : (split cs).lexemes = ls ++ rs) :
    ∃ rest, cs = ls.flatMap (·.text) ++ rest ∧ split rest = ⟨rs, (split cs).broken⟩ ∧
      ∀ rest', rest' ≠ [] → SameAhead rest rest' →
        split (ls.flatMap (·.text) ++ rest') =
          ⟨ls ++ (split rest').lexemes, (split rest').broken⟩ := by
  induction ls generalizing cs with
  | nil => exact ⟨cs, rfl, by rw [← show (split cs).lexemes = rs from h], fun _ _ _ => rfl⟩
  | cons l ls ih =>
      obtain ⟨c, ds, rest, rfl, hnext, hrest⟩ := exists_next_of_split h
      obtain ⟨rest, rfl, hsplit, hfront⟩ := ih (congrArg Pieces.lexemes hrest)
      obtain ⟨text, htext, hread⟩ := next_ahead hnext
      refine ⟨rest, ?_, by rw [hsplit, hrest], fun rest' hne hahead => ?_⟩
      · rw [List.flatMap_cons, List.append_assoc]
        exact (next_append hnext).symm
      · have hagain := hread _ (hahead.append hne (ls.flatMap (·.text)))
        dsimp only at htext
        rw [List.flatMap_cons, htext, List.append_assoc, List.cons_append, split_of_next hagain,
          hfront rest' hne hahead]
        rfl

theorem exists_next_of_broken {cs : List Char} {b : Broken} (h : (split cs).broken = some b) :
    ∃ c ds, cs = (split cs).lexemes.flatMap (·.text) ++ c :: ds ∧ next c ds = .error b := by
  have hall : (split cs).lexemes = (split cs).lexemes ++ [] := (List.append_nil _).symm
  obtain ⟨rest, hcs, hrest, -⟩ := split_front hall
  rw [h] at hrest
  cases rest with
  | nil =>
      rw [split_nil] at hrest
      cases hrest
  | cons c ds =>
      refine ⟨c, ds, hcs, ?_⟩
      cases hnext : next c ds with
      | ok t =>
          rw [split_of_next hnext] at hrest
          cases hrest
      | error b' =>
          rw [split_of_error hnext] at hrest
          cases hrest
          rfl

end Lexeme

namespace Tokens

open Lexeme

variable {width : Char → Nat} {p : Pos}

theorem placeAfter_eq (ls : List Lexeme) : placeAfter width p ls = p.after width (ls.flatMap (·.text)) := by
  induction ls generalizing p with
  | nil => rfl
  | cons l ls ih => rw [placeAfter, List.foldl_cons, ← placeAfter, ih, List.flatMap_cons, Pos.after_append]

theorem place_append (ls rs : List Lexeme) :
    place width p (ls ++ rs) =
      place width p ls ++ place width (p.after width (ls.flatMap (·.text))) rs := by
  induction ls generalizing p with
  | nil => rfl
  | cons l ls ih =>
      rw [List.cons_append, place, place, ih, List.flatMap_cons, Pos.after_append]
      cases l.item <;> rfl

theorem exists_of_mem_place {ls : List Lexeme} {t : Token} (h : t ∈ place width p ls) :
    ∃ front l rs, ls = front ++ l :: rs ∧ l.item = some t.item ∧
      t.pos = p.after width (front.flatMap (·.text)) := by
  induction ls generalizing p with
  | nil => cases h
  | cons l ls ih =>
      have hlater : t ∈ place width (p.after width l.text) ls → ∃ front l' rs,
          l :: ls = front ++ l' :: rs ∧ l'.item = some t.item ∧
            t.pos = p.after width (front.flatMap (·.text)) := by
        intro hmem
        obtain ⟨front, l', rs, rfl, hitem, hpos⟩ := ih hmem
        exact ⟨l :: front, l', rs, rfl, hitem, by rw [hpos, List.flatMap_cons, Pos.after_append]⟩
      rw [place] at h
      split at h
      · next item hitem =>
          rcases List.mem_cons.mp h with rfl | h
          · exact ⟨[], l, ls, rfl, hitem, rfl⟩
          · exact hlater h
      · exact hlater h

def append (front : List Token) (ts : Tokens) : Tokens := { ts with tokens := front ++ ts.tokens }

theorem ofCharsAt_front {cs rest : List Char} {ls : List Lexeme}
    (h : split cs = ⟨ls ++ (split rest).lexemes, (split rest).broken⟩) :
    ofCharsAt width p cs =
      append (place width p ls) (ofCharsAt width (p.after width (ls.flatMap (·.text))) rest) := by
  rw [ofCharsAt, ofCharsAt, h]
  simp only [place_append, placeAfter_eq, List.flatMap_append, Pos.after_append]
  cases (split rest).broken with
  | none => simp only [append, List.append_assoc]
  | some b => rfl

/-- A token of a text is the end of the text, or the first token of what stands at its place. -/
theorem exists_front_of_mem {cs : List Char} {t : Token} (h : t ∈ (ofCharsAt width p cs).tokens) :
    (t = ⟨.endOfInput, p.after width cs⟩ ∧ (split cs).broken = none) ∨
      ∃ ls rs c ds text rest, cs = ls.flatMap (·.text) ++ c :: ds ∧
        (split cs).lexemes = ls ++ ⟨text, some t.item⟩ :: rs ∧
        next c ds = .ok ⟨some t.item, text, rest⟩ ∧
        t.pos = p.after width (ls.flatMap (·.text)) := by
  have hplace : t ∈ place width p (split cs).lexemes → ∃ ls rs c ds text rest,
      cs = ls.flatMap (·.text) ++ c :: ds ∧ (split cs).lexemes = ls ++ ⟨text, some t.item⟩ :: rs ∧
        next c ds = .ok ⟨some t.item, text, rest⟩ ∧
        t.pos = p.after width (ls.flatMap (·.text)) := by
    intro hmem
    obtain ⟨ls, ⟨text, item⟩, rs, hsplit, rfl, hpos⟩ := exists_of_mem_place hmem
    obtain ⟨front, hcs, hfront, -⟩ := split_front hsplit
    obtain ⟨c, ds, rest, rfl, hnext, -⟩ := exists_next_of_split (congrArg Pieces.lexemes hfront)
    exact ⟨ls, rs, c, ds, text, rest, hcs, hsplit, hnext, hpos⟩
  rw [ofCharsAt] at h
  split at h
  · next hwhole =>
      rcases List.mem_append.mp h with h | h
      · exact .inr (hplace h)
      · rw [List.mem_singleton.mp h, placeAfter_eq, split_text hwhole]
        exact .inl ⟨rfl, hwhole⟩
  · exact .inr (hplace h)

end Tokens

end MailFilter
