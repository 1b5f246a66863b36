import Mathlib.Data.List.TakeWhile
import MailFilter.Proofs.Lexeme.Literals

/-!
# The readers of lexemes, case by case

One equation for each thing that a reader may find at the front of its text.  Where a reader looks
ahead, the equation asks only about the character it looks at, so that it applies to any text that
goes on with the same one.
-/

namespace MailFilter.Lexeme

/-! ## As far as a property holds -/

theorem not_of_mem_head?_dropWhile {p : Char → Bool} {cs : List Char} :
    ∀ c ∈ (cs.dropWhile p).head?, p c = false := by
  intro c hc
  have := List.head?_dropWhile_not p cs
  rw [Option.mem_def.mp hc] at this
  simpa using this

theorem span_append {p : Char → Bool} {body : List Char} (rest : List Char)
    (hbody : ∀ c ∈ body, p c = true) (hrest : ∀ c ∈ rest.head?, p c = false) :
    (body ++ rest).takeWhile p = body ∧ (body ++ rest).dropWhile p = rest := by
  have hstop : rest.takeWhile p = [] ∧ rest.dropWhile p = rest := by
    cases rest with
    | nil => exact ⟨rfl, rfl⟩
    | cons c rest =>
        have hc : p c = false := hrest c rfl
        simp [hc]
  rw [List.takeWhile_append_of_pos hbody, List.dropWhile_append_of_pos hbody, hstop.1, hstop.2,
    List.append_nil]
  exact ⟨rfl, rfl⟩

theorem span_takeWhile {p : Char → Bool} (cs rest : List Char)
    (hrest : ∀ c ∈ rest.head?, p c = false) :
    (cs.takeWhile p ++ rest).takeWhile p = cs.takeWhile p ∧
      (cs.takeWhile p ++ rest).dropWhile p = rest :=
  span_append rest (fun _ hc => List.mem_takeWhile_imp hc) hrest

/-! ## Comments and quoted strings -/

theorem bracketTail_close (cs : List Char) : bracketTail ('*' :: '/' :: cs) = some ⟨[], ['*', '/'], cs⟩ :=
  rfl

theorem bracketTail_crlf (cs : List Char) :
    bracketTail ('\r' :: '\n' :: cs) =
      (bracketTail cs).map fun t => ⟨'\n' :: t.value, '\r' :: '\n' :: t.text, t.rest⟩ := rfl

theorem bracketTail_plain {c : Char} {cs : List Char} (hclose : c = '*' → cs.head? ≠ some '/')
    (hreturn : c = '\r' → cs.head? ≠ some '\n') :
    bracketTail (c :: cs) = (bracketTail cs).map fun t => ⟨c :: t.value, c :: t.text, t.rest⟩ := by
  rw [bracketTail.eq_def]
  split <;> simp_all

theorem lineRest_of {line : List Char} (rest : List Char) (hline : '\n' ∉ line)
    (hrest : ∀ c ∈ rest.head?, c = '\n') :
    lineRest (line ++ rest) = ⟨line, line, rest⟩ := by
  have hkeep : ∀ c ∈ line, (c != '\n') = true := fun c hc => by
    simpa using fun (heq : c = '\n') => hline (heq ▸ hc)
  obtain ⟨htake, hdrop⟩ := span_append rest hkeep fun c hc => by simpa using hrest c hc
  rw [lineRest, htake, hdrop]

/-! ## Multi-line strings -/

theorem multilineLines_last {line : List Char} (h : '\n' ∉ line) :
    multilineLines line = if chomp line == ['.'] then some ⟨[], line, []⟩ else none := by
  have hkeep : ∀ c ∈ line, (c != '\n') = true := fun c hc => by
    simpa using fun (heq : c = '\n') => h (heq ▸ hc)
  obtain ⟨htake, hdrop⟩ := span_append [] hkeep (by simp)
  rw [List.append_nil] at htake hdrop
  rw [multilineLines.eq_def]
  dsimp only
  split
  · rw [htake]
  · next hcons =>
      rw [hdrop] at hcons
      cases hcons

theorem spaces_append_stop {space : List Char} (rest : List Char)
    (hspace : ∀ c ∈ space, c = ' ' ∨ c = '\t') (hrest : ∀ c ∈ rest.head?, c ≠ ' ' ∧ c ≠ '\t') :
    spaces (space ++ rest) = (space, rest) := by
  have hkeep : ∀ c ∈ space, (c == ' ' || c == '\t') = true := by simpa using hspace
  obtain ⟨htake, hdrop⟩ := span_append rest hkeep fun c hc => by simpa using hrest c hc
  exact Prod.ext htake hdrop

theorem lineComment_of_ne {cs : List Char} (h : cs.head? ≠ some '#') : lineComment cs = ([], cs) :=
  if_neg (by simpa using h)

theorem lineComment_hash {line : List Char} (rest : List Char) (hline : '\n' ∉ line)
    (hrest : ∀ c ∈ rest.head?, c = '\n') : lineComment ('#' :: line ++ rest) = ('#' :: line, rest) := by
  have hkeep : ∀ c ∈ '#' :: line, (c != '\n') = true := by
    intro c hc
    have hne : c ≠ '\n' := by
      rintro rfl
      exact hline (List.mem_of_ne_of_mem (by decide) hc)
    simpa using hne
  obtain ⟨htake, hdrop⟩ := span_append rest hkeep fun c hc => by simpa using hrest c hc
  rw [lineComment, if_pos (by rfl), htake, hdrop]

theorem lineComment_cases (cs : List Char) :
    lineComment cs = ([], cs) ∨ (lineComment cs).1.head? = some '#' ∧ '\n' ∉ (lineComment cs).1 ∧
      ∀ c ∈ (lineComment cs).2.head?, c = '\n' := by
  unfold lineComment
  split
  · next hhash =>
      obtain ⟨ds, rfl⟩ := List.head?_eq_some_iff.mp (by simpa using hhash)
      refine .inr ⟨by simp, fun hmem => by simpa using List.mem_takeWhile_imp hmem, fun c hc => ?_⟩
      simpa using not_of_mem_head?_dropWhile c hc
  · exact .inl rfl

theorem multilineHeader_of {cs space comment rest rest' : List Char} :
    spaces cs = (space, rest) → lineComment rest = (comment, rest') →
    multilineHeader cs =
      match rest' with
      | '\n' :: rest => .ok ⟨(), space ++ comment ++ ['\n'], rest⟩
      | '\r' :: '\n' :: rest => .ok ⟨(), space ++ comment ++ ['\r', '\n'], rest⟩
      | _ => .error (space ++ comment) := by
  intro hspaces hcomment
  obtain ⟨rfl, rfl⟩ := Prod.ext_iff.mp hspaces
  obtain ⟨rfl, rfl⟩ := Prod.ext_iff.mp hcomment
  rfl

/-! ## Lists of strings -/

theorem filler_hash (cs : List Char) :
    filler ('#' :: cs) = ('#' :: (lineRest cs).text ++ (filler (lineRest cs).rest).1,
      (filler (lineRest cs).rest).2) := by
  rw [filler.eq_def]
  simp [show Text.isBlank '#' = false by decide]

theorem filler_bracket {cs : List Char} {t : Taken (List Char)} (h : bracketTail cs = some t) :
    filler ('/' :: '*' :: cs) =
      ('/' :: '*' :: t.text ++ (filler t.rest).1, (filler t.rest).2) := by
  rw [filler.eq_def]
  dsimp only
  rw [if_neg (by decide), if_neg (by decide), if_pos (by rfl)]
  split
  · next u hu =>
      rw [List.tail_cons, h] at hu
      cases hu
      rfl
  · next hnone =>
      rw [List.tail_cons, h] at hnone
      cases hnone

theorem filler_unclosed {cs : List Char} (h : bracketTail cs = none) :
    filler ('/' :: '*' :: cs) = ([], '/' :: '*' :: cs) := by
  rw [filler.eq_def]
  dsimp only
  rw [if_neg (by decide), if_neg (by decide), if_pos (by rfl)]
  split
  · next t ht =>
      rw [List.tail_cons, h] at ht
      cases ht
  · rfl

theorem filler_nil : filler [] = ([], []) := by
  rw [filler.eq_def]

theorem not_blank_of_filler {cs space rest : List Char} {c : Char} (h : filler cs = (space, c :: rest)) :
    Text.isBlank c = false := by
  fun_induction filler cs generalizing space with
  | case1 => cases h
  | case2 d cs hd text rest' hf ih =>
      cases h
      exact ih hf
  | case3 d cs hd hhash text rest' hf ih =>
      cases h
      exact ih hf
  | case4 d cs hd hhash hopen t ht text rest' hf ih =>
      cases h
      exact ih hf
  | case5 d cs hd =>
      cases h
      exact Bool.eq_false_iff.mpr hd
  | case6 d cs hd =>
      cases h
      exact Bool.eq_false_iff.mpr hd

theorem listTail_of_filler_nil {state : ListState} {cs space : List Char} (h : filler cs = (space, [])) :
    listTail state cs = .error ⟨.unclosedList, none, cs⟩ := by
  rw [listTail.eq_def]
  split
  · rfl
  · next hcons =>
      rw [h] at hcons
      cases hcons

theorem listItem_quote (cs : List Char) :
    listItem ('"' :: cs) = (quotedString cs).mapError Broken.inside := rfl

theorem head?_ne_of_isTextKey {key : List Char} (h : isTextKey key = true) :
    ∃ c, key.head? = some c ∧ c ≠ '"' ∧ c ≠ '/' := by
  cases key with
  | nil => cases h
  | cons c key =>
      have hlower : c.toLower = 't' := by
        simp only [isTextKey, List.map_cons, beq_iff_eq, List.cons.injEq] at h
        exact h.1
      refine ⟨c, rfl, ?_, ?_⟩ <;> rintro rfl <;> exact absurd hlower (by decide)

theorem textKey?_eq_some {cs key rest : List Char} :
    textKey? cs = some (key, rest) ↔ cs = key ++ rest ∧ isTextKey key = true ∧
      ∀ c ∈ rest.head?, Text.isBlank c = true ∨ c = '#' := by
  simp only [textKey?]
  constructor
  · intro h
    split at h
    · next hk =>
        cases h
        simp only [Bool.and_eq_true] at hk
        refine ⟨(List.take_append_drop 5 cs).symm, hk.1, fun c hc => ?_⟩
        have := hk.2
        rw [Option.mem_def.mp hc] at this
        simpa using this
    · cases h
  · rintro ⟨rfl, hkey, hrest⟩
    have hlen : key.length = 5 := by
      simp only [isTextKey, beq_iff_eq] at hkey
      simpa using congrArg List.length hkey
    rw [List.take_left' hlen, List.drop_left' hlen, hkey]
    cases rest with
    | nil => rfl
    | cons c rest => simp [hrest c rfl]

theorem listItem_key {cs key rest : List Char} (h : textKey? cs = some (key, rest)) :
    listItem cs = (multilineString key rest).mapError Broken.inside := by
  obtain ⟨rfl, hkey, -⟩ := textKey?_eq_some.mp h
  obtain ⟨c, hc, hquote, -⟩ := head?_ne_of_isTextKey hkey
  unfold listItem
  split
  · next heq =>
      have hne : key ≠ [] := by rintro rfl; cases hc
      have hhead : (key ++ rest).head? = key.head? := List.head?_append_of_ne_nil _ hne
      rw [heq, hc] at hhead
      exact absurd (Option.some.inj hhead).symm hquote
  · rw [h]

theorem listItem_none {cs : List Char} (hquote : cs.head? ≠ some '"') (h : textKey? cs = none) :
    listItem cs = .error ⟨.noString, some [], []⟩ := by
  unfold listItem
  split
  · exact absurd rfl hquote
  · rw [h]

/-! ## All lexemes -/

theorem wordTail_blank {c : Char} (cs : List Char) (hc : Text.isBlank c = true) :
    wordTail (c :: cs) = ([], c :: cs) := by
  rw [wordTail, if_pos (by simp [hc])]

theorem next_hash {line : List Char} (rest : List Char) (hline : '\n' ∉ line)
    (hrest : ∀ c ∈ rest.head?, c = '\n') :
    next '#' (line ++ rest) =
      .ok ⟨some (.comment (String.ofList (Text.dropTrailing (· == '\r') line))), '#' :: line, rest⟩ := by
  refine next_of_isNext (.lineComment ?_)
  rw [hashComment, lineRest_of rest hline hrest]
  rfl

end MailFilter.Lexeme
