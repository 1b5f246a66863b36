import Mathlib.Data.List.Infix
import MailFilter.Lexeme

/-!
# Texts that spell tokens

`Spells cs items` says that a text splits without a fault and has the given tokens.  Texts are put
together from the right: each rule adds one blank, one sign, one word or one literal in front of a
text whose tokens are known, so that a longest match is always judged with what follows it.
-/

namespace MailFilter.Lexeme

/-- A text splits into lexemes without a fault, and these are its tokens, comments among them. -/
def Spells (cs : List Char) (items : List Item) : Prop :=
  (split cs).broken = none ∧ (split cs).lexemes.filterMap (·.item) = items

-- The equation of `split` for all texts: those for each shape of a text are slow to derive.
theorem spells_nil : Spells [] [] := by
  rw [Spells, split.eq_def]
  exact ⟨rfl, rfl⟩

theorem split_of_next {c : Char} {cs : List Char} {t : Taken (Option Item)}
    (h : next c cs = .ok t) :
    split (c :: cs) = ⟨⟨t.text, t.value⟩ :: (split t.rest).lexemes, (split t.rest).broken⟩ := by
  rw [split.eq_def]
  dsimp only
  split
  · next b hb =>
      rw [h] at hb
      cases hb
  · next u hu =>
      rw [h] at hu
      cases hu
      rfl

theorem spells_of_next {c : Char} {cs : List Char} {t : Taken (Option Item)} {items : List Item}
    (h : next c cs = .ok t) (hrest : Spells t.rest items) :
    Spells (c :: cs) (t.value.toList ++ items) := by
  obtain ⟨hbroken, hitems⟩ := hrest
  rw [Spells, split_of_next h]
  refine ⟨hbroken, ?_⟩
  rw [List.filterMap_cons, hitems]
  cases t.value <;> rfl

/-! ## Blanks -/

theorem next_blank {c : Char} (cs : List Char) (hc : Text.isBlank c = true) :
    next c cs = .ok ⟨none, c :: cs.takeWhile Text.isBlank, cs.dropWhile Text.isBlank⟩ := by
  rw [next, if_pos hc]

theorem spells_dropWhile {cs : List Char} {items : List Item} (h : Spells cs items) :
    Spells (cs.dropWhile Text.isBlank) items := by
  cases cs with
  | nil => exact h
  | cons c cs =>
      by_cases hc : Text.isBlank c = true
      · rw [List.dropWhile_cons_of_pos hc]
        rw [Spells, split_of_next (next_blank cs hc)] at h
        exact h
      · rw [List.dropWhile_cons_of_neg hc]
        exact h

theorem spells_blank {c : Char} {cs : List Char} {items : List Item}
    (hc : Text.isBlank c = true) (h : Spells cs items) : Spells (c :: cs) items :=
  spells_of_next (next_blank cs hc) (spells_dropWhile h)

theorem spells_blanks {blanks cs : List Char} {items : List Item}
    (hblanks : ∀ c ∈ blanks, Text.isBlank c = true) (h : Spells cs items) :
    Spells (blanks ++ cs) items := by
  induction blanks with
  | nil => exact h
  | cons c blanks ih =>
      exact spells_blank (hblanks c (by simp)) (ih fun d hd => hblanks d (by simp [hd]))

/-! ## Signs -/

theorem not_blank_of_sign {c : Char} {item : Item} (h : sign? c = some item) :
    Text.isBlank c = false ∧ c ≠ '#' ∧ c ≠ '/' ∧ c ≠ '"' ∧ c ≠ '[' ∧ c ≠ ']' := by
  unfold sign? at h
  split at h <;> first | decide | cases h

theorem next_sign {c : Char} {item : Item} (hc : sign? c = some item) (cs : List Char) :
    next c cs = .ok ⟨some item, [c], cs⟩ := by
  obtain ⟨hblank, hhash, hslash, hquote, hopen, hclose⟩ := not_blank_of_sign hc
  simp [next, hblank, hhash, hslash, hquote, hopen, hclose, hc]

theorem spells_sign {c : Char} {cs : List Char} {item : Item} {items : List Item}
    (hc : sign? c = some item) (h : Spells cs items) : Spells (c :: cs) (item :: items) :=
  spells_of_next (next_sign hc cs) h

/-! ## Words -/

/-- A text that is read as one word wherever a word ends after it: neither blanks nor delimiters
stand in it, and no bracket comment opens in it. -/
def IsWord (cs : List Char) : Prop :=
  (∀ c ∈ cs, Text.isBlank c = false ∧ isDelimiter c = false) ∧ ¬ ['/', '*'] <:+: cs

theorem isWord_iff_all {cs : List Char} :
    cs.all (fun c => !Text.isBlank c && !isDelimiter c) = true ∧ ¬ ['/', '*'] <:+: cs ↔ IsWord cs := by
  simp [IsWord]

instance (cs : List Char) : Decidable (IsWord cs) := decidable_of_iff _ isWord_iff_all

/-- A word that is read as the name of a command or a test: no tag, no number, no `text:`. -/
def IsAtom (word : List Char) : Prop :=
  IsWord word ∧ word ≠ [] ∧ word.head? ≠ some ':' ∧ isNumber word = false ∧ isTextKey word = false

instance (word : List Char) : Decidable (IsAtom word) :=
  inferInstanceAs (Decidable (IsWord word ∧ word ≠ [] ∧ word.head? ≠ some ':' ∧
    isNumber word = false ∧ isTextKey word = false))

/-- A text in front of which a word ends. -/
def Stops (cs : List Char) : Prop :=
  ∀ c ∈ cs.head?, Text.isBlank c = true ∨ isDelimiter c = true

theorem stops_cons {c : Char} {cs : List Char}
    (h : Text.isBlank c = true ∨ isDelimiter c = true) : Stops (c :: cs) := by
  simpa [Stops] using h

theorem IsWord.tail {c : Char} {cs : List Char} (h : IsWord (c :: cs)) : IsWord cs :=
  ⟨fun d hd => h.1 d (by simp [hd]), fun hmem => h.2 (hmem.trans (List.suffix_cons c cs).isInfix)⟩

theorem IsWord.not_comment {c : Char} {cs rest : List Char} (h : IsWord (c :: cs))
    (hrest : Stops rest) : ¬ (c = '/' ∧ (cs ++ rest).head? = some '*') := by
  rintro ⟨rfl, hstar⟩
  cases cs with
  | nil =>
      have := hrest '*' hstar
      revert this
      decide
  | cons d cs =>
      simp only [List.cons_append, List.head?_cons, Option.some.injEq] at hstar
      subst hstar
      exact h.2 (List.prefix_append ['/', '*'] cs).isInfix

theorem wordTail_append_stop {w rest : List Char} (hw : IsWord w) (hrest : Stops rest) :
    wordTail (w ++ rest) = (w, rest) := by
  induction w with
  | nil =>
      cases rest with
      | nil => rfl
      | cons c rest =>
          rcases hrest c rfl with hc | hc <;> simp [wordTail, hc]
  | cons c w ih =>
      obtain ⟨hblank, hdelim⟩ := hw.1 c (by simp)
      have hcomment := hw.not_comment hrest
      simp only [List.cons_append, wordTail, hblank, hdelim, ih hw.tail]
      simpa using hcomment

theorem sign?_eq_none {c : Char} (h : isDelimiter c = false) : sign? c = none := by
  unfold sign?
  split <;> first | rfl | exact absurd h (by decide)

theorem next_of_wordTail {c : Char} {cs word rest : List Char}
    (h : wordTail (c :: cs) = (c :: word, rest)) : next c cs = wordLexeme (c :: word) rest := by
  have hgo : ¬ (Text.isBlank c || isDelimiter c || (c == '/' && cs.head? == some '*')) = true := by
    intro hstop
    rw [wordTail, if_pos hstop] at h
    cases h
  simp only [Bool.or_eq_true, not_or, Bool.not_eq_true] at hgo
  obtain ⟨⟨hblank, hdelim⟩, hcomment⟩ := hgo
  have hne : c ≠ '#' ∧ c ≠ '"' ∧ c ≠ '[' ∧ c ≠ ']' := by
    refine ⟨?_, ?_, ?_, ?_⟩ <;> rintro rfl <;> exact absurd hdelim (by decide)
  rw [next, if_neg (by simp [hblank]), if_neg (by simp [hne.1]), if_neg (by simp [hcomment]),
    if_neg (by simp [hne.2.1]), if_neg (by simp [hne.2.2.1]), if_neg (by simp [hne.2.2.2]),
    sign?_eq_none hdelim, h]
  exact wordAt_of_ne_nil (List.cons_ne_nil c word)

theorem next_quote (cs : List Char) :
    next '"' cs = (quotedString cs).map (·.map (some <| .quoted ·)) := rfl

theorem next_openBracket (cs : List Char) :
    next '[' cs = (stringList cs).map (·.map (some <| .strings ·)) := rfl

theorem next_openComment (cs : List Char) :
    next '/' ('*' :: cs) = (bracketComment cs).map (·.map (some <| .comment ·)) := rfl

/-- Every lexeme that a text may start with is read there. -/
theorem next_of_isNext {c : Char} {cs : List Char} {t : Taken (Option Item)} (h : IsNext c cs t) :
    next c cs = .ok t := by
  cases h with
  | blank hc => exact next_blank cs hc
  | lineComment h =>
      rw [next, if_neg (by decide), if_pos (by rfl), h]
      rfl
  | bracketComment h =>
      rw [next_openComment, h]
      rfl
  | quoted h =>
      rw [next_quote, h]
      rfl
  | strings h =>
      rw [next_openBracket, h]
      rfl
  | sign h => exact next_sign h cs
  | multiline hword hkey h =>
      rw [next_of_wordTail hword, wordLexeme, if_pos hkey, h]
      rfl
  | word hword hkey => rw [next_of_wordTail hword, wordLexeme, if_neg (by simp [hkey])]

theorem next_word {c : Char} {w rest : List Char} (hw : IsWord (c :: w)) (hrest : Stops rest) :
    next c (w ++ rest) = wordLexeme (c :: w) rest :=
  next_of_wordTail (wordTail_append_stop hw hrest)

theorem spells_word {w cs : List Char} {items : List Item} (hw : IsWord w) (hne : w ≠ [])
    (hkey : isTextKey w = false) (hcs : Stops cs) (h : Spells cs items) :
    Spells (w ++ cs) (wordItem w :: items) := by
  cases w with
  | nil => exact absurd rfl hne
  | cons c w =>
      have hnext : next c (w ++ cs) = .ok ⟨some (wordItem (c :: w)), c :: w, cs⟩ := by
        rw [next_word hw hcs, wordLexeme, hkey]
        rfl
      exact spells_of_next hnext h

/-! ## Comments -/

theorem dropTrailing_eq_self {p : Char → Bool} {cs : List Char}
    (h : ∀ c ∈ cs.getLast?, p c = false) : Text.dropTrailing p cs = cs := by
  induction cs with
  | nil => rfl
  | cons c cs ih =>
      rw [Text.dropTrailing_cons]
      cases cs with
      | nil => simp [h c rfl]
      | cons d cs =>
          rw [ih (by simpa using h)]
          simp

theorem dropTrailing_concat {p : Char → Bool} {c : Char} (cs : List Char) (hc : p c = true) :
    Text.dropTrailing p (cs ++ [c]) = Text.dropTrailing p cs := by
  induction cs with
  | nil => simp [Text.dropTrailing_cons, hc]
  | cons d cs ih => rw [List.cons_append, Text.dropTrailing_cons, Text.dropTrailing_cons, ih]

theorem lineRest_append_break {line : List Char} (cs : List Char) (h : '\n' ∉ line) :
    lineRest (line ++ '\n' :: cs) = ⟨line, line, '\n' :: cs⟩ := by
  have hkeep : ∀ c ∈ line, (c != '\n') = true := fun c hc => by
    simpa using fun (heq : c = '\n') => h (heq ▸ hc)
  simp [lineRest, List.takeWhile_append_of_pos hkeep, List.dropWhile_append_of_pos hkeep]

theorem spells_comment {line cs : List Char} {items : List Item} (hbreak : '\n' ∉ line)
    (h : Spells cs items) :
    Spells ('#' :: line ++ '\n' :: cs)
      (.comment (String.ofList (Text.dropTrailing (· == '\r') line)) :: items) := by
  have hnext : next '#' (line ++ '\n' :: cs) =
      .ok ((hashComment (line ++ '\n' :: cs)).map (some <| .comment ·)) := by
    simp [next, show Text.isBlank '#' = false by decide]
  have hrest : Spells (lineRest (line ++ '\n' :: cs)).rest items := by
    rw [lineRest_append_break cs hbreak]
    exact spells_blank (by decide) h
  have := spells_of_next hnext hrest
  simpa [hashComment, lineRest_append_break cs hbreak, Taken.map, Taken.after] using this

end MailFilter.Lexeme
