import MailFilter.Proofs.Lexeme.Spelling

/-!
# What the words of a script are

The tokens that a text splits into are sound: names are atoms, tags are words that start with a
colon, and numbers are digits and a unit.
-/

namespace MailFilter

/-- A token that a text can split into. -/
def Item.IsSound : Item → Prop
  | .identifier name => Lexeme.IsAtom name.toList
  | .tag name => Lexeme.IsWord name.toList ∧ name.toList.head? = some ':'
  | .number text => Lexeme.isNumber text.toList = true
  | .endOfInput => False
  | _ => True

namespace Lexeme

theorem isWord_wordTail (cs : List Char) : IsWord (wordTail cs).1 := by
  induction cs with
  | nil => exact ⟨by simp [wordTail], by simp [wordTail]⟩
  | cons c cs ih =>
      rw [wordTail]
      split
      · exact ⟨by simp, by simp⟩
      · next hc =>
          simp only [Bool.or_eq_true, Bool.and_eq_true, beq_iff_eq, not_or] at hc
          obtain ⟨⟨hblank, hdelim⟩, hcomment⟩ := hc
          rw [Bool.not_eq_true] at hblank hdelim
          refine ⟨List.forall_mem_cons.2 ⟨⟨hblank, hdelim⟩, ih.1⟩, fun hwithin => ?_⟩
          rw [List.infix_cons_iff] at hwithin
          rcases hwithin with hfront | hwithin
          · obtain ⟨rfl, rest, hrest⟩ := List.cons_prefix_cons.1 hfront
            have happend := wordTail_append cs
            rw [← hrest] at happend
            exact hcomment ⟨rfl, by rw [← happend]; rfl⟩
          · exact ih.2 hwithin

theorem isDelimiter_eq_false {c : Char} (hhash : c ≠ '#') (hquote : c ≠ '"') (hopen : c ≠ '[')
    (hclose : c ≠ ']') (hsign : sign? c = none) : isDelimiter c = false := by
  rw [Bool.eq_false_iff]
  intro hdelim
  simp only [isDelimiter, List.contains_iff_mem, List.mem_cons, List.not_mem_nil, or_false] at hdelim
  rcases hdelim with rfl | rfl | rfl | rfl | rfl | rfl | rfl | rfl | rfl | rfl <;> contradiction

theorem isSound_wordItem {word : List Char} (hword : IsWord word) (hne : word ≠ [])
    (hkey : isTextKey word = false) : (wordItem word).IsSound := by
  unfold wordItem
  split
  · next h => exact ⟨by rwa [String.toList_ofList], by rw [String.toList_ofList]; simpa using h⟩
  split
  · next h => exact (congrArg (isNumber · = true) String.toList_ofList).mpr h
  · next htag hnumber =>
      rw [Bool.not_eq_true] at hnumber
      refine (congrArg IsAtom String.toList_ofList).mpr ⟨hword, hne, ?_, hnumber, hkey⟩
      simpa using htag

theorem isSound_of_next {c : Char} {cs : List Char} {t : Taken (Option Item)}
    (h : next c cs = .ok t) : ∀ item ∈ t.value, item.IsSound := by
  cases isNext_of_next h with
  | blank => nofun
  | lineComment | bracketComment | quoted | strings | multiline =>
      rintro _ ⟨⟩
      trivial
  | sign hsign =>
      rintro _ ⟨⟩
      unfold sign? at hsign
      split at hsign <;> cases hsign <;> trivial
  | word hword hkey =>
      rintro _ ⟨⟩
      have hisWord := isWord_wordTail (c :: cs)
      rw [hword] at hisWord
      exact isSound_wordItem hisWord (List.cons_ne_nil _ _) hkey

theorem isSound_of_split {cs : List Char} {l : Lexeme} (h : l ∈ (split cs).lexemes) :
    ∀ item ∈ l.item, item.IsSound := by
  fun_induction split cs with
  | case1 => cases h
  | case2 => cases h
  | case3 c cs t ht pieces ih =>
      rcases List.mem_cons.1 h with rfl | h
      · exact isSound_of_next ht
      · exact ih h

end Lexeme

end MailFilter
