import MailFilter.Proofs.Lexeme.Spelling
import MailFilter.Script.Layout

/-!
# Literals read back

A string that was written as a literal, with either line ending, is read as that string whatever
follows it, and so is a list of strings.  A carriage return forces quotes and is escaped there, so
the carriage returns that a line ending brings in are the only ones a reader may drop.
-/

namespace MailFilter

/-! ## Line endings -/

namespace LineEnding

/-- What a line ending has before its line feed. -/
def lead : LineEnding → List Char
  | lf => []
  | crlf => ['\r']

@[simp] theorem apply_nil (e : LineEnding) : e.apply [] = [] := by
  cases e <;> rfl

@[simp] theorem apply_append (e : LineEnding) (a b : List Char) :
    e.apply (a ++ b) = e.apply a ++ e.apply b := by
  cases e <;> simp [apply]

theorem apply_cons_of_ne (e : LineEnding) {c : Char} (cs : List Char) (h : c ≠ '\n') :
    e.apply (c :: cs) = c :: e.apply cs := by
  cases e <;> simp [apply, h]

theorem apply_break (e : LineEnding) (cs : List Char) :
    e.apply ('\n' :: cs) = e.lead ++ '\n' :: e.apply cs := by
  cases e <;> simp [apply, lead]

theorem apply_of_not_mem (e : LineEnding) {cs : List Char} (h : '\n' ∉ cs) : e.apply cs = cs := by
  induction cs with
  | nil => exact e.apply_nil
  | cons c cs ih =>
      simp only [List.mem_cons, not_or] at h
      rw [apply_cons_of_ne e cs (Ne.symm h.1), ih h.2]

theorem apply_line (e : LineEnding) {line : List Char} (cs : List Char) (h : '\n' ∉ line) :
    e.apply (line ++ '\n' :: cs) = line ++ e.lead ++ '\n' :: e.apply cs := by
  rw [apply_append, apply_of_not_mem e h, apply_break, List.append_assoc]

theorem not_break_of_mem_lead (e : LineEnding) : '\n' ∉ e.lead := by
  cases e <;> decide

end LineEnding

/-! ## Lines -/

namespace Text

theorem not_mem_of_mem_lines {cs l : List Char} (h : l ∈ lines cs) : '\n' ∉ l := by
  induction cs generalizing l with
  | nil => simp_all [lines]
  | cons c cs ih =>
      rw [lines] at h
      split at h
      · rcases List.mem_cons.1 h with rfl | h
        · simp
        · exact ih h
      · next hc =>
          have hne : '\n' ≠ c := fun heq => hc (by simp [← heq])
          split at h
          · simp_all
          · next l' ls hls =>
              rcases List.mem_cons.1 h with rfl | h
              · simpa [hne] using ih (l := l') (by simp [hls])
              · exact ih (by simp [hls, h])

theorem subset_of_mem_lines {cs l : List Char} (h : l ∈ lines cs) : l ⊆ cs := by
  intro c hc
  have hmem : c ∈ unlines (lines cs) :=
    List.mem_flatMap.2 ⟨l, h, by simp [hc]⟩
  rw [unlines_lines] at hmem
  rcases List.mem_append.1 hmem with hmem | hmem
  · exact hmem
  · exact absurd (List.mem_singleton.1 hmem ▸ hc) (not_mem_of_mem_lines h)

theorem intercalate_append_break {ls : List (List Char)} (hne : ls ≠ []) :
    ['\n'].intercalate ls ++ ['\n'] = unlines ls := by
  induction ls with
  | nil => exact absurd rfl hne
  | cons l ls ih =>
      cases ls with
      | nil => simp [unlines]
      | cons m ls =>
          rw [List.intercalate_cons_cons, List.append_assoc, ih (by simp)]
          simp [unlines]

theorem intercalate_lines (cs : List Char) : ['\n'].intercalate (lines cs) = cs := by
  have := intercalate_append_break (lines_ne_nil cs)
  rw [unlines_lines] at this
  exact List.append_cancel_right this

end Text

/-! ## Quoted strings -/

namespace Lexeme

theorem quotedTail_quote (cs : List Char) : quotedTail ('"' :: cs) = some ⟨[], ['"'], cs⟩ := rfl

theorem quotedTail_escaped (c : Char) (cs : List Char) :
    quotedTail ('\\' :: c :: cs) =
      (quotedTail cs).map fun t => ⟨c :: t.value, '\\' :: c :: t.text, t.rest⟩ := rfl

theorem quotedTail_crlf (cs : List Char) :
    quotedTail ('\r' :: '\n' :: cs) =
      (quotedTail cs).map fun t => ⟨'\n' :: t.value, '\r' :: '\n' :: t.text, t.rest⟩ := rfl

theorem quotedTail_next {c : Char} {cs : List Char} (hquote : c ≠ '"') (hslash : c ≠ '\\')
    (hreturn : c = '\r' → cs.head? ≠ some '\n') :
    quotedTail (c :: cs) = (quotedTail cs).map fun t => ⟨c :: t.value, c :: t.text, t.rest⟩ := by
  rw [quotedTail.eq_def]
  split <;> simp_all

theorem quotedTail_plain {c : Char} (cs : List Char) (hquote : c ≠ '"') (hslash : c ≠ '\\')
    (hreturn : c ≠ '\r') :
    quotedTail (c :: cs) = (quotedTail cs).map fun t => ⟨c :: t.value, c :: t.text, t.rest⟩ :=
  quotedTail_next hquote hslash fun heq => absurd heq hreturn

theorem quotedTail_escape (e : LineEnding) (value rest : List Char) :
    ∃ text, quotedTail (e.apply (value.flatMap Literal.escape) ++ '"' :: rest) =
      some ⟨value, text, rest⟩ := by
  induction value with
  | nil => exact ⟨['"'], by simp [quotedTail_quote]⟩
  | cons c value ih =>
      obtain ⟨text, ih⟩ := ih
      rw [List.flatMap_cons, LineEnding.apply_append, List.append_assoc]
      by_cases hspecial : c = '"' ∨ c = '\\' ∨ c = '\r'
      · have hescape : e.apply (Literal.escape c) = ['\\', c] := by
          rcases hspecial with rfl | rfl | rfl <;> exact LineEnding.apply_of_not_mem e (by decide)
        refine ⟨'\\' :: c :: text, ?_⟩
        rw [hescape, List.cons_append, List.cons_append, List.nil_append, quotedTail_escaped, ih]
        rfl
      simp only [not_or] at hspecial
      obtain ⟨hquote, hslash, hreturn⟩ := hspecial
      have hescape : Literal.escape c = [c] := by
        simp [Literal.escape, hquote, hslash, hreturn]
      rw [hescape]
      by_cases hbreak : c = '\n'
      · subst hbreak
        cases e with
        | lf =>
            refine ⟨'\n' :: text, ?_⟩
            rw [show LineEnding.lf.apply ['\n'] = ['\n'] from rfl, List.singleton_append,
              quotedTail_plain _ (by decide) (by decide) (by decide), ih]
            rfl
        | crlf =>
            refine ⟨'\r' :: '\n' :: text, ?_⟩
            rw [show LineEnding.crlf.apply ['\n'] = ['\r', '\n'] from rfl, List.cons_append,
              List.singleton_append, quotedTail_crlf, ih]
            rfl
      · have hplain : e.apply [c] = [c] := LineEnding.apply_of_not_mem e (by simpa using Ne.symm hbreak)
        refine ⟨c :: text, ?_⟩
        rw [hplain, List.singleton_append, quotedTail_plain _ hquote hslash hreturn, ih]
        rfl

theorem quotedString_escape (e : LineEnding) (value rest : List Char) :
    ∃ text, quotedString (e.apply (value.flatMap Literal.escape ++ ['"']) ++ rest) =
      .ok ⟨String.ofList value, text, rest⟩ := by
  obtain ⟨text, htail⟩ := quotedTail_escape e value rest
  have hquote : e.apply ['"'] = ['"'] := LineEnding.apply_of_not_mem e (by decide)
  refine ⟨'"' :: text, ?_⟩
  rw [LineEnding.apply_append, hquote, List.append_assoc, List.singleton_append, quotedString, htail]
  rfl

/-! ## Multi-line strings -/

theorem multilineLines_line {line : List Char} (rest : List Char) (h : '\n' ∉ line) :
    multilineLines (line ++ '\n' :: rest) =
      if chomp line == ['.'] then some ⟨[], line ++ ['\n'], rest⟩
      else (multilineLines rest).map fun t =>
        ⟨unstuff (chomp line) :: t.value, line ++ '\n' :: t.text, t.rest⟩ := by
  have hsplit := lineRest_append_break rest h
  simp only [lineRest, Taken.mk.injEq] at hsplit
  obtain ⟨htake, -, hdrop⟩ := hsplit
  rw [multilineLines.eq_def]
  simp only [htake]
  split
  · next hnil =>
      rw [hdrop] at hnil
      cases hnil
  · next c rest' hcons =>
      rw [hdrop] at hcons
      cases hcons
      rfl

theorem chomp_lead (e : LineEnding) {line : List Char} (h : '\r' ∉ line) :
    chomp (line ++ e.lead) = line := by
  cases e with
  | lf =>
      have hlast : line.getLast? ≠ some '\r' := fun hlast => h (List.mem_of_getLast? hlast)
      simp [chomp, LineEnding.lead, hlast]
  | crlf => simp [chomp, LineEnding.lead]

theorem stuff_ne_dot (line : List Char) : Literal.stuff line ≠ ['.'] := by
  unfold Literal.stuff
  split
  · simp
  · next h => exact fun heq => h [] heq

theorem unstuff_stuff (line : List Char) : unstuff (Literal.stuff line) = line := by
  unfold Literal.stuff
  split
  · rfl
  · next h =>
      unfold unstuff
      split
      · exact absurd rfl (h _)
      · rfl

theorem not_mem_stuff {c : Char} {line : List Char} (hc : c ≠ '.') (h : c ∉ line) :
    c ∉ Literal.stuff line := by
  unfold Literal.stuff
  split <;> simp_all

theorem multilineLines_stuff (e : LineEnding) {ls : List (List Char)} (rest : List Char)
    (hbreak : ∀ l ∈ ls, '\n' ∉ l) (hreturn : ∀ l ∈ ls, '\r' ∉ l) :
    ∃ text, multilineLines (e.apply (Text.unlines (ls.map Literal.stuff) ++ ['.', '\n']) ++ rest) =
      some ⟨ls, text, rest⟩ := by
  induction ls with
  | nil =>
      have hend : e.apply ['.', '\n'] ++ rest = (['.'] ++ e.lead) ++ '\n' :: rest := by
        have := LineEnding.apply_line e [] (show '\n' ∉ ['.'] by decide)
        simpa using congrArg (· ++ rest) this
      refine ⟨['.'] ++ e.lead ++ ['\n'], ?_⟩
      rw [List.map_nil, Text.unlines, List.flatMap_nil, List.nil_append, hend,
        multilineLines_line _ (by simp [e.not_break_of_mem_lead]), chomp_lead e (by decide)]
      rfl
  | cons l ls ih =>
      obtain ⟨text, ih⟩ := ih (fun m hm => hbreak m (by simp [hm])) fun m hm => hreturn m (by simp [hm])
      have hl : '\n' ∉ Literal.stuff l := not_mem_stuff (by decide) (hbreak l (by simp))
      have hl' : '\r' ∉ Literal.stuff l := not_mem_stuff (by decide) (hreturn l (by simp))
      have htext : e.apply (Text.unlines ((l :: ls).map Literal.stuff) ++ ['.', '\n']) ++ rest =
          (Literal.stuff l ++ e.lead) ++ '\n' ::
            (e.apply (Text.unlines (ls.map Literal.stuff) ++ ['.', '\n']) ++ rest) := by
        have := LineEnding.apply_line e (Text.unlines (ls.map Literal.stuff) ++ ['.', '\n']) hl
        simpa [Text.unlines] using congrArg (· ++ rest) this
      refine ⟨Literal.stuff l ++ e.lead ++ '\n' :: text, ?_⟩
      rw [htext, multilineLines_line _ (by simp [hl, e.not_break_of_mem_lead]), chomp_lead e hl',
        if_neg (by simpa using stuff_ne_dot l), ih, unstuff_stuff]
      rfl

theorem multilineHeader_break (e : LineEnding) (rest : List Char) :
    ∃ text, multilineHeader (e.apply ['\n'] ++ rest) = .ok ⟨(), text, rest⟩ := by
  cases e with
  | lf => exact ⟨['\n'], rfl⟩
  | crlf => exact ⟨['\r', '\n'], rfl⟩

/-- What a multi-line string has after its keyword. -/
def multilineBody (value : List Char) : List Char :=
  '\n' :: (Text.unlines ((Text.lines value).map Literal.stuff) ++ ['.', '\n'])

theorem multilineOpening_toList : "text:\n".toList = ['t', 'e', 'x', 't', ':', '\n'] := by
  decide

-- Stated by `change`: the equation of `multiline` is slow to derive, for the literal inside it.
theorem multiline_eq (value : List Char) :
    Literal.multiline value = ['t', 'e', 'x', 't', ':'] ++ multilineBody value := by
  change "text:\n".toList ++ _ ++ _ = _
  rw [multilineOpening_toList, List.append_assoc]
  rfl

theorem multilineString_body (e : LineEnding) {value : List Char} (key rest : List Char)
    (h : '\r' ∉ value) :
    ∃ text, multilineString key (e.apply (multilineBody value) ++ rest) =
      .ok ⟨String.ofList value, text, rest⟩ := by
  obtain ⟨header, hheader⟩ := multilineHeader_break e
    (e.apply (Text.unlines ((Text.lines value).map Literal.stuff) ++ ['.', '\n']) ++ rest)
  obtain ⟨text, hlines⟩ := multilineLines_stuff e rest
    (fun l (hl : l ∈ Text.lines value) => Text.not_mem_of_mem_lines hl)
    (fun l hl hreturn => h (Text.subset_of_mem_lines hl hreturn))
  refine ⟨key ++ header ++ text, ?_⟩
  rw [multilineBody, ← List.singleton_append, LineEnding.apply_append, List.append_assoc,
    multilineString, hheader]
  simp only [hlines, Taken.map, Taken.after, Text.intercalate_lines]

theorem blank_head_body (e : LineEnding) (value rest : List Char) :
    ∃ c cs, e.apply (multilineBody value) ++ rest = c :: cs ∧ Text.isBlank c = true := by
  rw [multilineBody, LineEnding.apply_break]
  cases e with
  | lf => exact ⟨'\n', _, rfl, by decide⟩
  | crlf => exact ⟨'\r', _, rfl, by decide⟩

end Lexeme

namespace Literal

def isMultiline (threshold : Option Nat) (value : String) : Bool :=
  !value.toList.contains '\r' &&
    (value.toList.contains '\n' || threshold.any (· < value.toList.length))

def item (threshold : Option Nat) (value : String) : Item :=
  if isMultiline threshold value then .multiline value else .quoted value

theorem write_of_multiline {threshold : Option Nat} {value : String}
    (h : isMultiline threshold value = true) :
    '\r' ∉ value.toList ∧ write threshold value = multiline value.toList := by
  simp only [isMultiline, Bool.and_eq_true, Bool.not_eq_true'] at h
  refine ⟨by simpa using h.1, ?_⟩
  simp only [write]
  rw [if_neg (by simpa using h.1), if_pos h.2]

theorem write_of_not_multiline {threshold : Option Nat} {value : String}
    (h : isMultiline threshold value = false) :
    write threshold value = '"' :: (value.toList.flatMap escape ++ ['"']) := by
  simp only [isMultiline, Bool.and_eq_false_iff, Bool.not_eq_false'] at h
  have hquoted : write threshold value = quoted value.toList := by
    rcases h with h | h
    · simp only [write]
      rw [if_pos h]
    · simp only [write, h]
      simp
  rw [hquoted, quoted, List.cons_append]

end Literal

namespace Lexeme

theorem apply_write_of_multiline (e : LineEnding) {threshold : Option Nat} {value : String}
    (h : Literal.isMultiline threshold value = true) (rest : List Char) :
    e.apply (Literal.write threshold value) ++ rest =
      't' :: (['e', 'x', 't', ':'] ++ (e.apply (multilineBody value.toList) ++ rest)) := by
  have hkey : e.apply ['t', 'e', 'x', 't', ':'] = ['t', 'e', 'x', 't', ':'] :=
    LineEnding.apply_of_not_mem e (by decide)
  rw [(Literal.write_of_multiline h).2, multiline_eq, LineEnding.apply_append, hkey,
    List.append_assoc, List.cons_append]

theorem apply_write_of_not_multiline (e : LineEnding) {threshold : Option Nat} {value : String}
    (h : Literal.isMultiline threshold value = false) (rest : List Char) :
    e.apply (Literal.write threshold value) ++ rest =
      '"' :: (e.apply (value.toList.flatMap Literal.escape ++ ['"']) ++ rest) := by
  rw [Literal.write_of_not_multiline h, LineEnding.apply_cons_of_ne e _ (by decide),
    List.cons_append]

theorem next_literal (e : LineEnding) (threshold : Option Nat) (value : String) (rest : List Char) :
    ∃ c cs, e.apply (Literal.write threshold value) ++ rest = c :: cs ∧ next c cs =
      .ok ⟨some (Literal.item threshold value), e.apply (Literal.write threshold value), rest⟩ := by
  have hread : ∃ c cs text, e.apply (Literal.write threshold value) ++ rest = c :: cs ∧
      next c cs = .ok ⟨some (Literal.item threshold value), text, rest⟩ := by
    by_cases hform : Literal.isMultiline threshold value = true
    · obtain ⟨text, hread⟩ := multilineString_body e ['t', 'e', 'x', 't', ':'] rest
        (Literal.write_of_multiline hform).1
      obtain ⟨c, cs, hcons, hc⟩ := blank_head_body e value.toList rest
      have hstops : Stops (e.apply (multilineBody value.toList) ++ rest) := by
        rw [hcons]
        exact stops_cons (.inl hc)
      refine ⟨'t', _, text, apply_write_of_multiline e hform rest, ?_⟩
      rw [next_word (by decide) hstops, wordLexeme, if_pos (by decide), hread]
      simp [Literal.item, hform, Except.map, Taken.map]
    · rw [Bool.not_eq_true] at hform
      obtain ⟨text, hread⟩ := quotedString_escape e value.toList rest
      refine ⟨'"', _, text, apply_write_of_not_multiline e hform rest, ?_⟩
      rw [String.ofList_toList] at hread
      rw [Literal.item, hform]
      exact next_of_isNext (.quoted hread)
  obtain ⟨c, cs, text, hcons, hnext⟩ := hread
  have htext := next_append hnext
  rw [← hcons] at htext
  exact ⟨c, cs, hcons, List.append_cancel_right htext ▸ hnext⟩

theorem spells_literal (e : LineEnding) (threshold : Option Nat) (value : String) {rest : List Char}
    {items : List Item} (h : Spells rest items) :
    Spells (e.apply (Literal.write threshold value) ++ rest)
      (Literal.item threshold value :: items) := by
  obtain ⟨c, cs, hcons, hnext⟩ := next_literal e threshold value rest
  rw [hcons]
  exact spells_of_next hnext h

/-! ## Lists of strings -/

theorem filler_blank {c : Char} (cs : List Char) (hc : Text.isBlank c = true) :
    filler (c :: cs) = (c :: (filler cs).1, (filler cs).2) := by
  rw [filler.eq_def]
  simp only [hc, if_true]

theorem filler_stop {c : Char} {cs : List Char} (hblank : Text.isBlank c = false) (hhash : c ≠ '#')
    (hopen : c = '/' → cs.head? ≠ some '*') : filler (c :: cs) = ([], c :: cs) := by
  rw [filler.eq_def]
  simp only [hblank, Bool.false_eq_true, if_false]
  rw [if_neg (by simpa using hhash), if_neg (by simpa using hopen)]

theorem filler_of_not_opening {c : Char} (cs : List Char) (hblank : Text.isBlank c = false)
    (hhash : c ≠ '#') (hslash : c ≠ '/') : filler (c :: cs) = ([], c :: cs) :=
  filler_stop hblank hhash fun heq => absurd heq hslash

/-- The rest of a list is read as some strings, and this follows the list. -/
def ListReads (state : ListState) (cs : List Char) (values : List String) (rest : List Char) :
    Prop :=
  ∃ text, listTail state cs = .ok ⟨values, text, rest⟩

/-- What a list reads after its filler, given by the first character that is none. -/
theorem listTail_of_filler {state : ListState} {cs space rest : List Char} {c : Char}
    (h : filler cs = (space, c :: rest)) :
    listTail state cs =
      if c == '/' && rest.head? == some '*' then .error ⟨.unclosedComment, some space, cs⟩
      else if c == ']' && state != .afterComma then .ok ⟨[], space ++ [c], rest⟩
      else if state == .afterItem then
        if c == ',' then
          match listTail .afterComma rest with
          | .ok t => .ok (t.after (space ++ [c]))
          | .error b => .error (b.after (space ++ [c]))
        else .error ⟨.noComma c, some space, space⟩
      else
        match listItem (c :: rest) with
        | .error b => .error (b.after space)
        | .ok item =>
          match listTail .afterItem item.rest with
          | .ok t => .ok ((t.map (item.value :: ·)).after (space ++ item.text))
          | .error b => .error (b.after (space ++ item.text)) := by
  have hspace : (filler cs).1 = space := by rw [h]
  rw [listTail.eq_def]
  split
  · next hrest =>
      rw [h] at hrest
      cases hrest
  · next d rest' hrest =>
      rw [h] at hrest
      cases hrest
      simp only [hspace]
      split
      · rfl
      split
      · rfl
      split
      · rfl
      split
      · next hitem => rw [hitem]
      · next item hitem =>
          cases htail : listTail .afterItem item.rest <;> simp only [hitem, htail]

theorem listReads_blank {state : ListState} {c : Char} {cs : List Char} {values : List String}
    {rest : List Char} (hc : Text.isBlank c = true) (h : ListReads state cs values rest) :
    ListReads state (c :: cs) values rest := by
  obtain ⟨text, h⟩ := h
  refine ⟨c :: text, ?_⟩
  have hfiller := filler_blank cs hc
  cases hrest : (filler cs).2 with
  | nil =>
      rw [listTail.eq_def] at h
      split at h
      · cases h
      · next hcons =>
          rw [hrest] at hcons
          cases hcons
  | cons d rest' =>
      rw [hrest] at hfiller
      have hspace : filler cs = ((filler cs).1, d :: rest') := by rw [← hrest]
      rw [listTail_of_filler hspace] at h
      rw [listTail_of_filler hfiller]
      split at h
      · cases h
      · next hcomment =>
          rw [if_neg hcomment]
          split at h
          · next hclose =>
              rw [if_pos hclose]
              cases h
              rfl
          next hclose =>
          rw [if_neg hclose]
          split at h
          · next hstate =>
              rw [if_pos hstate]
              split at h
              · next hcomma =>
                  rw [if_pos hcomma]
                  split at h <;> cases h
                  rfl
              · cases h
          next hstate =>
          rw [if_neg hstate]
          split at h
          · cases h
          split at h <;> cases h
          rfl

theorem listReads_close {state : ListState} (rest : List Char) (hstate : state ≠ .afterComma) :
    ListReads state (']' :: rest) [] rest := by
  have hfiller := filler_of_not_opening rest (c := ']') (by decide) (by decide) (by decide)
  refine ⟨[']'], ?_⟩
  rw [listTail_of_filler hfiller, if_neg (by simp), if_pos (by simpa using hstate)]
  rfl

theorem listReads_comma {cs : List Char} {values : List String} {rest : List Char}
    (h : ListReads .afterComma cs values rest) : ListReads .afterItem (',' :: cs) values rest := by
  obtain ⟨text, h⟩ := h
  have hfiller := filler_of_not_opening cs (c := ',') (by decide) (by decide) (by decide)
  refine ⟨',' :: text, ?_⟩
  rw [listTail_of_filler hfiller, if_neg (by simp), if_neg (by simp), if_pos (by decide),
    if_pos (by decide), h]
  rfl

theorem listReads_item {state : ListState} {c : Char} {cs : List Char} {item : Taken String}
    {values : List String} {rest : List Char} (hstate : state ≠ .afterItem)
    (hc : c = '"' ∨ c = 't') (hitem : listItem (c :: cs) = .ok item)
    (h : ListReads .afterItem item.rest values rest) :
    ListReads state (c :: cs) (item.value :: values) rest := by
  obtain ⟨text, h⟩ := h
  have hfiller : filler (c :: cs) = ([], c :: cs) := by
    rcases hc with rfl | rfl <;> exact filler_of_not_opening cs (by decide) (by decide) (by decide)
  refine ⟨item.text ++ text, ?_⟩
  rw [listTail_of_filler hfiller, if_neg (by rcases hc with rfl | rfl <;> simp),
    if_neg (by rcases hc with rfl | rfl <;> simp), if_neg (by simpa using hstate), hitem]
  simp [h, Taken.map, Taken.after]

theorem textKey?_text {c : Char} {cs : List Char} (hc : Text.isBlank c = true) :
    textKey? ('t' :: (['e', 'x', 't', ':'] ++ c :: cs)) = some (['t', 'e', 'x', 't', ':'], c :: cs) := by
  simp [textKey?, isTextKey, hc]

theorem listItem_literal (e : LineEnding) (threshold : Option Nat) (value : String)
    (rest : List Char) :
    ∃ c cs text, e.apply (Literal.write threshold value) ++ rest = c :: cs ∧ (c = '"' ∨ c = 't') ∧
      listItem (c :: cs) = .ok ⟨value, text, rest⟩ := by
  by_cases hform : Literal.isMultiline threshold value = true
  · obtain ⟨text, hread⟩ := multilineString_body e ['t', 'e', 'x', 't', ':'] rest
      (Literal.write_of_multiline hform).1
    obtain ⟨c, cs, hcons, hc⟩ := blank_head_body e value.toList rest
    rw [String.ofList_toList, hcons] at hread
    refine ⟨'t', _, text, apply_write_of_multiline e hform rest, .inr rfl, ?_⟩
    rw [hcons, listItem]
    · simp only [textKey?_text hc, hread]
      rfl
    · simp
  · rw [Bool.not_eq_true] at hform
    obtain ⟨text, hread⟩ := quotedString_escape e value.toList rest
    refine ⟨'"', _, text, apply_write_of_not_multiline e hform rest, .inl rfl, ?_⟩
    rw [String.ofList_toList] at hread
    simp only [listItem, hread]
    rfl

/-- A text that brings a list from its opening, or from a comma, to the end of an item. -/
def ListOpens (e : LineEnding) (state : ListState) (cs : List Char) (values : List String) : Prop :=
  ∀ tail more rest, ListReads .afterItem tail more rest →
    ListReads state (e.apply cs ++ tail) (values ++ more) rest

theorem listOpens_write (e : LineEnding) {state : ListState} (threshold : Option Nat)
    (value : String) (hstate : state ≠ .afterItem) :
    ListOpens e state (Literal.write threshold value) [value] := by
  intro tail more rest h
  obtain ⟨c, cs, text, heq, hc, hitem⟩ := listItem_literal e threshold value tail
  rw [heq]
  exact listReads_item hstate hc hitem h

theorem listOpens_comma {e : LineEnding} (threshold : Option Nat) {cs : List Char}
    {values : List String} (value : String) (h : ListOpens e .opened cs values) :
    ListOpens e .opened
      (cs ++ (if Literal.endsLine cs then [','] else [',', ' ']) ++ Literal.write threshold value)
      (values ++ [value]) := by
  intro tail more rest htail
  have hitem : ListReads .afterComma (e.apply (Literal.write threshold value) ++ tail)
      (value :: more) rest :=
    listOpens_write e threshold value (by decide) tail more rest htail
  have hcomma : ListReads .afterItem
      (e.apply (if Literal.endsLine cs then [','] else [',', ' ']) ++
        (e.apply (Literal.write threshold value) ++ tail)) (value :: more) rest := by
    rw [LineEnding.apply_of_not_mem e (by split <;> decide)]
    split
    · exact listReads_comma hitem
    · exact listReads_comma (listReads_blank (by decide) hitem)
  simpa using h _ _ _ hcomma

theorem listOpens_commaJoin (e : LineEnding) (threshold : Option Nat) (value : String)
    (values : List String) :
    ListOpens e .opened (Literal.commaJoin ((value :: values).map (Literal.write threshold)))
      (value :: values) := by
  have hfold : ∀ (values : List String) (cs : List Char) (found : List String),
      ListOpens e .opened cs found →
      ListOpens e .opened ((values.map (Literal.write threshold)).foldl
        (fun text item => text ++ (if Literal.endsLine text then [','] else [',', ' ']) ++ item) cs)
        (found ++ values) := by
    intro values
    induction values with
    | nil => intro cs found h; simpa using h
    | cons v values ih =>
        intro cs found h
        have := ih _ _ (listOpens_comma threshold v h)
        simpa using this
  have := hfold values _ _ (listOpens_write e threshold value (show ListState.opened ≠ .afterItem by decide))
  simpa [Literal.commaJoin] using this

theorem next_list (e : LineEnding) (threshold : Option Nat) (values : List String)
    (rest : List Char) :
    ∃ c cs, e.apply (Literal.writeList threshold values) ++ rest = c :: cs ∧ next c cs =
      .ok ⟨some (.strings values), e.apply (Literal.writeList threshold values), rest⟩ := by
  have hclose : e.apply [']'] = [']'] := LineEnding.apply_of_not_mem e (by decide)
  have hread : ListReads .opened
      (e.apply (Literal.commaJoin (values.map (Literal.write threshold)) ++ [']']) ++ rest)
      values rest := by
    rw [LineEnding.apply_append, hclose, List.append_assoc, List.singleton_append]
    cases values with
    | nil => simpa [Literal.commaJoin] using listReads_close rest (by decide)
    | cons v values =>
        have := listOpens_commaJoin e threshold v values _ _ _
          (listReads_close rest (show ListState.afterItem ≠ .afterComma by decide))
        simpa using this
  obtain ⟨text, hread⟩ := hread
  have hcons : e.apply (Literal.writeList threshold values) ++ rest =
      '[' :: (e.apply (Literal.commaJoin (values.map (Literal.write threshold)) ++ [']']) ++ rest) := by
    rw [Literal.writeList, List.cons_append, LineEnding.apply_cons_of_ne e _ (by decide),
      List.cons_append]
  have hnext : next '[' (e.apply (Literal.commaJoin (values.map (Literal.write threshold)) ++ [']']) ++
      rest) = .ok ⟨some (.strings values), '[' :: text, rest⟩ := by
    refine next_of_isNext (.strings ?_)
    rw [stringList, hread]
    rfl
  have htext := next_append hnext
  rw [← hcons] at htext
  exact ⟨'[', _, hcons, List.append_cancel_right htext ▸ hnext⟩

theorem spells_list (e : LineEnding) (threshold : Option Nat) (values : List String)
    {rest : List Char} {items : List Item} (h : Spells rest items) :
    Spells (e.apply (Literal.writeList threshold values) ++ rest) (.strings values :: items) := by
  obtain ⟨c, cs, hcons, hnext⟩ := next_list e threshold values rest
  rw [hcons]
  exact spells_of_next hnext h

end Lexeme

end MailFilter
