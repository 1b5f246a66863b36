import MailFilter.Proofs.Lexeme.Readers
import MailFilter.Proofs.Lexeme.Words

/-!
# Lexemes with either line ending

A lexeme of a text whose lines end in line feeds is a lexeme of the text whose lines end in a carriage
return and a line feed, with the same value: every reader takes the text with the longer line breaks as
it takes the other, and faults are the same.  A backslash in front of a line feed would take the
carriage return in its place, and a carriage return of the text itself would read as half a line break.
-/

namespace MailFilter

namespace LineEnding

/-- A text whose line feeds can become line breaks of two characters: it has no carriage return, and
no backslash takes a line feed. -/
structure Breakable (cs : List Char) : Prop where
  noReturn : '\r' ∉ cs
  noEscape : ¬ ['\\', '\n'] <:+: cs

theorem Breakable.of_suffix {cs ds : List Char} (h : Breakable cs) (hds : ds <:+ cs) : Breakable ds :=
  ⟨fun hmem => h.noReturn (hds.subset hmem), fun hmem => h.noEscape (hmem.trans hds.isInfix)⟩

theorem Breakable.tail {c : Char} {cs : List Char} (h : Breakable (c :: cs)) : Breakable cs :=
  h.of_suffix (List.suffix_cons c cs)

theorem Breakable.head_ne {c : Char} {cs : List Char} (h : Breakable (c :: cs)) : c ≠ '\r' :=
  fun heq => h.noReturn (heq ▸ List.mem_cons_self)

theorem Breakable.rest {text rest cs : List Char} (h : Breakable cs) (happend : text ++ rest = cs) :
    Breakable rest :=
  h.of_suffix ⟨text, happend⟩

theorem crlf_break (cs : List Char) : crlf.apply ('\n' :: cs) = '\r' :: '\n' :: crlf.apply cs :=
  apply_break crlf cs

theorem head?_crlf {d : Char} (cs : List Char) (hbreak : d ≠ '\n') (hreturn : d ≠ '\r') :
    (crlf.apply cs).head? = some d ↔ cs.head? = some d := by
  cases cs with
  | nil => simp
  | cons c cs =>
      by_cases hc : c = '\n'
      · subst hc
        rw [crlf_break]
        simp [hbreak.symm, hreturn.symm]
      · rw [apply_cons_of_ne crlf cs hc]
        simp

theorem head?_crlf_beq (cs : List Char) :
    ((crlf.apply cs).head? == some '*') = (cs.head? == some '*') := by
  rw [Bool.eq_iff_iff, beq_iff_eq, beq_iff_eq]
  exact head?_crlf cs (by decide) (by decide)

end LineEnding

namespace Lexeme

open LineEnding

variable {γ : Type}

def Taken.inCrlf (t : Taken γ) : Taken γ := ⟨t.value, crlf.apply t.text, crlf.apply t.rest⟩

def Broken.inCrlf (b : Broken) : Broken := ⟨b.fault, b.lead.map crlf.apply, crlf.apply b.text⟩

/-- What a reader gives, in the text with the longer line breaks. -/
def inCrlf : Except Broken (Taken γ) → Except Broken (Taken γ)
  | .ok t => .ok t.inCrlf
  | .error b => .error b.inCrlf

theorem Taken.inCrlf_after (text : List Char) (t : Taken γ) :
    (t.after text).inCrlf = t.inCrlf.after (crlf.apply text) := by
  simp [Taken.inCrlf, Taken.after]

theorem Broken.inCrlf_after (text : List Char) (b : Broken) :
    (b.after text).inCrlf = b.inCrlf.after (crlf.apply text) := by
  obtain ⟨fault, lead, rest⟩ := b
  cases lead <;> simp [Broken.inCrlf, Broken.after]

theorem inCrlf_map {δ : Type} (f : γ → δ) (x : Except Broken (Taken γ)) :
    inCrlf (x.map (·.map f)) = (inCrlf x).map (·.map f) := by
  cases x <;> rfl

theorem inCrlf_inside (x : Except Broken (Taken γ)) :
    inCrlf (x.mapError Broken.inside) = (inCrlf x).mapError Broken.inside := by
  cases x with
  | ok t => rfl
  | error b =>
      obtain ⟨fault, lead, text⟩ := b
      cases lead <;> simp [inCrlf, Except.mapError, Broken.inCrlf, Broken.inside]

/-! ## Comments and quoted strings -/

theorem map_inCrlf_cons (c : Char) (text : List Char) (x : Option (Taken (List Char))) :
    (x.map fun t => (⟨c :: t.value, text ++ t.text, t.rest⟩ : Taken (List Char))).map Taken.inCrlf =
      (x.map Taken.inCrlf).map fun t => ⟨c :: t.value, crlf.apply text ++ t.text, t.rest⟩ := by
  cases x with
  | none => rfl
  | some t => simp [Taken.inCrlf]

theorem bracketTail_apply {cs : List Char} (h : Breakable cs) :
    bracketTail (crlf.apply cs) = (bracketTail cs).map Taken.inCrlf := by
  fun_induction bracketTail cs with
  | case1 => rw [apply_nil]; rfl
  | case2 cs =>
      rw [apply_cons_of_ne _ _ (by decide), apply_cons_of_ne _ _ (by decide), bracketTail_close]
      rfl
  | case3 cs ih => exact absurd rfl h.head_ne
  | case4 c cs hclose hreturn ih =>
      have hmap := map_inCrlf_cons c [c] (bracketTail cs)
      by_cases hc : c = '\n'
      · subst hc
        rw [crlf_break, bracketTail_crlf, ih h.tail]
        exact hmap.symm
      · rw [apply_cons_of_ne _ _ hc, bracketTail_plain _ fun heq => absurd heq h.head_ne, ih h.tail]
        · rw [apply_cons_of_ne _ _ hc] at hmap
          exact hmap.symm
        · intro heq hslash
          rw [head?_crlf cs (by decide) (by decide)] at hslash
          obtain ⟨ds, rfl⟩ := List.head?_eq_some_iff.mp hslash
          exact hclose ds heq rfl

theorem quotedTail_apply {cs : List Char} (h : Breakable cs) :
    quotedTail (crlf.apply cs) = (quotedTail cs).map Taken.inCrlf := by
  fun_induction quotedTail cs with
  | case1 => rw [apply_nil]; rfl
  | case2 cs =>
      rw [apply_cons_of_ne _ _ (by decide), quotedTail_quote]
      rfl
  | case3 c cs ih =>
      have hc : c ≠ '\n' := by
        rintro rfl
        exact h.noEscape (List.prefix_append ['\\', '\n'] cs).isInfix
      have hmap := map_inCrlf_cons c ['\\', c] (quotedTail cs)
      rw [apply_cons_of_ne _ _ (by decide), apply_cons_of_ne _ _ hc] at hmap ⊢
      rw [quotedTail_escaped, ih h.tail.tail]
      exact hmap.symm
  | case4 =>
      rw [apply_cons_of_ne _ _ (by decide), apply_nil]
      rfl
  | case5 cs ih => exact absurd rfl h.head_ne
  | case6 c cs hquote hslash hlast hreturn ih =>
      have hmap := map_inCrlf_cons c [c] (quotedTail cs)
      by_cases hc : c = '\n'
      · subst hc
        rw [crlf_break, quotedTail_crlf, ih h.tail]
        exact hmap.symm
      · rw [apply_cons_of_ne _ _ hc, quotedTail_plain _ hquote ?_ h.head_ne, ih h.tail]
        · rw [apply_cons_of_ne _ _ hc] at hmap
          exact hmap.symm
        · rintro rfl
          cases cs with
          | nil => exact hlast rfl rfl
          | cons d cs => exact hslash d cs rfl rfl

theorem bracketComment_apply {cs : List Char} (h : Breakable cs) :
    bracketComment (crlf.apply cs) = inCrlf (bracketComment cs) := by
  have hopen : crlf.apply ('/' :: '*' :: cs) = '/' :: '*' :: crlf.apply cs := by
    rw [apply_cons_of_ne _ _ (by decide), apply_cons_of_ne _ _ (by decide)]
  rw [bracketComment, bracketComment, bracketTail_apply h]
  cases bracketTail cs with
  | none => exact congrArg (fun text => Except.error (Broken.mk .unclosedComment none text)) hopen.symm
  | some t =>
      refine congrArg Except.ok ?_
      rw [Taken.inCrlf_after]
      rfl

theorem quotedString_apply {cs : List Char} (h : Breakable cs) :
    quotedString (crlf.apply cs) = inCrlf (quotedString cs) := by
  have hopen : crlf.apply ('"' :: cs) = '"' :: crlf.apply cs := apply_cons_of_ne _ _ (by decide)
  rw [quotedString, quotedString, quotedTail_apply h]
  cases quotedTail cs with
  | none => exact congrArg (fun text => Except.error (Broken.mk .unclosedString none text)) hopen.symm
  | some t =>
      refine congrArg Except.ok ?_
      rw [Taken.inCrlf_after]
      rfl

/-! ## Multi-line strings -/

theorem chomp_eq_of_not_mem {line : List Char} (h : '\r' ∉ line) : chomp line = line := by
  have := chomp_lead .lf h
  rwa [lead, List.append_nil] at this

theorem line_cases (cs : List Char) :
    ∃ line, '\n' ∉ line ∧ (cs = line ∨ ∃ rest, cs = line ++ '\n' :: rest) := by
  refine ⟨cs.takeWhile (· != '\n'), fun hmem => by simpa using List.mem_takeWhile_imp hmem, ?_⟩
  have happend := List.takeWhile_append_dropWhile (p := (· != '\n')) (l := cs)
  cases hrest : cs.dropWhile (· != '\n') with
  | nil => exact .inl (by rw [hrest, List.append_nil] at happend; exact happend.symm)
  | cons c rest =>
      have hc := not_of_mem_head?_dropWhile c
        (show c ∈ (cs.dropWhile (· != '\n')).head? by rw [hrest]; rfl)
      obtain rfl : c = '\n' := by simpa using hc
      exact .inr ⟨rest, by rw [hrest] at happend; exact happend.symm⟩

theorem multilineLines_apply {cs : List Char} (h : '\r' ∉ cs) :
    multilineLines (crlf.apply cs) = (multilineLines cs).map Taken.inCrlf := by
  induction hlen : cs.length using Nat.strong_induction_on generalizing cs with
  | _ n ih =>
      obtain ⟨line, hline, rfl | ⟨rest, rfl⟩⟩ := line_cases cs
      · rw [apply_of_not_mem _ hline, multilineLines_last hline]
        split
        · simp [Taken.inCrlf, apply_of_not_mem _ hline]
        · rfl
      · simp only [List.mem_append, List.mem_cons, not_or] at h
        obtain ⟨hreturn, -, hrest⟩ := h
        have hbroken : '\n' ∉ line ++ ['\r'] := by simp [hline]
        have hchomp : chomp (line ++ ['\r']) = line := chomp_lead .crlf hreturn
        rw [apply_line _ _ hline, lead, multilineLines_line _ hbroken, hchomp,
          multilineLines_line _ hline, chomp_eq_of_not_mem hreturn,
          ih rest.length (by simp [← hlen]; omega) hrest rfl]
        split
        · simp [Taken.inCrlf, apply_line _ _ hline, lead]
        · cases multilineLines rest with
          | none => rfl
          | some t => simp [Taken.inCrlf, apply_line _ _ hline, lead]

theorem spaces_apply (cs : List Char) :
    spaces (crlf.apply cs) = ((spaces cs).1, crlf.apply (spaces cs).2) := by
  have hspace : ∀ c ∈ (spaces cs).1, c = ' ' ∨ c = '\t' := fun c hc => by
    simpa using List.mem_takeWhile_imp hc
  have hbreak : '\n' ∉ (spaces cs).1 := fun hmem => by simpa using hspace _ hmem
  have hsplit : crlf.apply cs = (spaces cs).1 ++ crlf.apply (spaces cs).2 := by
    conv_lhs => rw [← spaces_append cs, apply_append, apply_of_not_mem _ hbreak]
  have hstop : ∀ c ∈ (spaces cs).2.head?, c ≠ ' ' ∧ c ≠ '\t' := fun c hc => by
    simpa using not_of_mem_head?_dropWhile c hc
  rw [hsplit]
  refine spaces_append_stop _ hspace fun c hc => ⟨?_, ?_⟩
  · rintro rfl
    exact (hstop _ ((head?_crlf _ (by decide) (by decide)).mp hc)).1 rfl
  · rintro rfl
    exact (hstop _ ((head?_crlf _ (by decide) (by decide)).mp hc)).2 rfl

theorem multilineHeader_apply {cs : List Char} (h : '\r' ∉ cs) :
    multilineHeader (crlf.apply cs) =
      ((multilineHeader cs).map Taken.inCrlf).mapError crlf.apply := by
  have hspaces := spaces_apply cs
  have hbreak : '\n' ∉ (spaces cs).1 := fun hmem => by simpa using List.mem_takeWhile_imp hmem
  have hrest : '\r' ∉ (spaces cs).2 := fun hmem => h (spaces_append cs ▸ List.mem_append_right _ hmem)
  have hsplit : spaces cs = ((spaces cs).1, (spaces cs).2) := (Prod.eta _).symm
  generalize (spaces cs).1 = space at *
  generalize (spaces cs).2 = rest at *
  have hspace : crlf.apply space = space := apply_of_not_mem _ hbreak
  by_cases hhash : rest.head? = some '#'
  · obtain ⟨rest, rfl⟩ := List.head?_eq_some_iff.mp hhash
    obtain ⟨line, hline, rfl | ⟨rest, rfl⟩⟩ := line_cases rest
    · have hcomment := lineComment_hash [] hline (by simp)
      have hall : crlf.apply ('#' :: rest) = '#' :: rest := apply_of_not_mem _ (by simp [hline])
      rw [List.append_nil] at hcomment
      rw [hall] at hspaces
      rw [multilineHeader_of hspaces hcomment, multilineHeader_of hsplit hcomment]
      refine congrArg Except.error ?_
      rw [apply_append, hspace, hall]
    · have hcomment := lineComment_hash ('\n' :: rest) hline (by simp)
      have hcomment' := lineComment_hash ('\n' :: crlf.apply rest)
        (show '\n' ∉ line ++ ['\r'] by simp [hline]) (by simp)
      have hall : crlf.apply ('#' :: line ++ '\n' :: rest) =
          '#' :: (line ++ ['\r']) ++ '\n' :: crlf.apply rest := by
        rw [apply_line _ _ (by simp [hline]), lead, List.cons_append]
      rw [← List.cons_append] at hspaces hsplit
      rw [hall] at hspaces
      rw [multilineHeader_of hspaces hcomment', multilineHeader_of hsplit hcomment]
      simp [Except.map, Except.mapError, Taken.inCrlf, hspace, apply_cons_of_ne,
        apply_of_not_mem _ hline, crlf_break]
  · have hcomment := lineComment_of_ne hhash
    have hcomment' := lineComment_of_ne
      (mt (head?_crlf rest (by decide) (by decide)).mp hhash)
    rw [multilineHeader_of hspaces hcomment', multilineHeader_of hsplit hcomment]
    cases rest with
    | nil => simp [Except.map, Except.mapError, hspace]
    | cons c rest =>
        by_cases hc : c = '\n'
        · subst hc
          rw [crlf_break]
          simp [Except.map, Except.mapError, Taken.inCrlf, hspace, crlf_break]
        · have hne : c ≠ '\r' := fun heq => hrest (heq ▸ List.mem_cons_self)
          rw [apply_cons_of_ne _ _ hc]
          simp [hc, hne, Except.map, Except.mapError, hspace]

theorem multilineString_apply {key cs : List Char} (hkey : '\n' ∉ key) (h : '\r' ∉ cs) :
    multilineString key (crlf.apply cs) = inCrlf (multilineString key cs) := by
  have hsame : crlf.apply key = key := apply_of_not_mem _ hkey
  rw [multilineString, multilineString, multilineHeader_apply h]
  cases hheader : multilineHeader cs with
  | error header => simp [Except.map, Except.mapError, inCrlf, Broken.inCrlf, hsame]
  | ok header =>
      have hrest : '\r' ∉ header.rest := fun hmem =>
        h (multilineHeader_append hheader ▸ List.mem_append_right _ hmem)
      simp only [Except.map, Except.mapError, Taken.inCrlf, multilineLines_apply hrest]
      cases multilineLines header.rest with
      | none => simp [inCrlf, Broken.inCrlf, hsame]
      | some t => simp [inCrlf, Taken.inCrlf, Taken.after, Taken.map, hsame]

/-! ## Lists of strings -/

theorem filler_apply {cs : List Char} (h : Breakable cs) :
    filler (crlf.apply cs) = (crlf.apply (filler cs).1, crlf.apply (filler cs).2) := by
  fun_induction filler cs with
  | case1 => simp [filler_nil]
  | case2 c cs hc text rest hf ih =>
      have ih := ih h.tail
      rw [hf] at ih
      by_cases hbreak : c = '\n'
      · subst hbreak
        rw [crlf_break, filler_blank _ (by decide), filler_blank _ (by decide), ih, crlf_break]
      · rw [apply_cons_of_ne _ _ hbreak, filler_blank _ hc, ih, apply_cons_of_ne _ _ hbreak]
  | case3 c cs hc hhash text rest hf ih =>
      obtain rfl : c = '#' := by simpa using hhash
      have ih := ih (h.tail.rest (lineRest_append cs))
      rw [hf] at ih
      rw [apply_cons_of_ne _ _ (by decide), filler_hash]
      obtain ⟨line, hline, rfl | ⟨rest', rfl⟩⟩ := line_cases cs
      · have hall := lineRest_of [] hline (by simp)
        rw [List.append_nil] at hall
        rw [hall, apply_nil] at ih
        rw [apply_of_not_mem _ hline, hall, ih, apply_append, apply_cons_of_ne _ _ (by decide),
          apply_of_not_mem _ hline]
      · -- The comment takes the carriage return, and what follows starts at the line feed.
        have hall := lineRest_of ('\n' :: rest') hline (by simp)
        have hall' := lineRest_of ('\n' :: crlf.apply rest')
          (show '\n' ∉ line ++ ['\r'] by simp [hline]) (by simp)
        rw [hall, crlf_break, filler_blank _ (by decide), Prod.mk.injEq] at ih
        rw [apply_line _ _ hline, lead, hall', ih.2, hall, apply_append, ← ih.1,
          apply_of_not_mem crlf (show '\n' ∉ '#' :: line by simp [hline])]
        simp
  | case4 c cs hc hhash hopen t ht text rest hf ih =>
      simp only [Bool.and_eq_true, beq_iff_eq] at hopen
      obtain ⟨rfl, hstar⟩ := hopen
      obtain ⟨cs, rfl⟩ := List.head?_eq_some_iff.mp hstar
      have happend := bracketTail_append ht
      have ih := ih (h.tail.tail.rest happend)
      rw [List.tail_cons] at ht
      have htail : bracketTail (crlf.apply cs) = some t.inCrlf := by
        rw [bracketTail_apply h.tail.tail, ht]
        rfl
      rw [hf] at ih
      rw [apply_cons_of_ne _ _ (by decide), apply_cons_of_ne _ _ (by decide), filler_bracket htail]
      simp only [Taken.inCrlf, ih, apply_append]
      rw [apply_cons_of_ne _ _ (by decide), apply_cons_of_ne _ _ (by decide)]
  | case5 c cs hc hhash hopen ht =>
      simp only [Bool.and_eq_true, beq_iff_eq] at hopen
      obtain ⟨rfl, hstar⟩ := hopen
      obtain ⟨cs, rfl⟩ := List.head?_eq_some_iff.mp hstar
      rw [List.tail_cons] at ht
      have htail : bracketTail (crlf.apply cs) = none := by
        rw [bracketTail_apply h.tail.tail, ht]
        rfl
      rw [apply_cons_of_ne _ _ (by decide), apply_cons_of_ne _ _ (by decide), filler_unclosed htail,
        apply_nil]
  | case6 c cs hc hhash hopen =>
      have hbreak : c ≠ '\n' := by
        rintro rfl
        exact hc (by decide)
      rw [apply_cons_of_ne _ _ hbreak, filler_stop (by simpa using hc) (by simpa using hhash), apply_nil]
      intro hslash hstar
      rw [head?_crlf _ (by decide) (by decide)] at hstar
      exact hopen (by simp [hslash, hstar])

theorem append_of_apply {key rest cs : List Char} (h : crlf.apply cs = key ++ rest) (hkey : '\n' ∉ key)
    (hreturn : '\r' ∉ key) : ∃ rest', cs = key ++ rest' ∧ rest = crlf.apply rest' := by
  induction key generalizing cs with
  | nil => exact ⟨cs, rfl, h.symm⟩
  | cons d key ih =>
      simp only [List.mem_cons, not_or] at hkey hreturn
      cases cs with
      | nil => simp at h
      | cons c cs =>
          by_cases hc : c = '\n'
          · subst hc
            rw [crlf_break, List.cons_append, List.cons.injEq] at h
            exact absurd h.1 hreturn.1
          · rw [apply_cons_of_ne _ _ hc, List.cons_append, List.cons.injEq] at h
            obtain ⟨rfl, h⟩ := h
            obtain ⟨rest', rfl, hrest⟩ := ih h hkey.2 hreturn.2
            exact ⟨rest', rfl, hrest⟩

theorem not_mem_of_isTextKey {key : List Char} (h : isTextKey key = true) :
    '\n' ∉ key ∧ '\r' ∉ key := by
  simp only [isTextKey, beq_iff_eq] at h
  constructor <;>
  · intro hmem
    have hlower := List.mem_map_of_mem (f := Char.toLower) hmem
    rw [h] at hlower
    exact absurd hlower (by decide)

theorem textKey?_apply (cs : List Char) :
    textKey? (crlf.apply cs) = (textKey? cs).map fun (key, rest) => (key, crlf.apply rest) := by
  have hfirst : ∀ rest : List Char, (∀ c ∈ (crlf.apply rest).head?, Text.isBlank c = true ∨ c = '#') ↔
      ∀ c ∈ rest.head?, Text.isBlank c = true ∨ c = '#' := by
    intro rest
    cases rest with
    | nil => simp
    | cons c rest =>
        by_cases hc : c = '\n'
        · subst hc
          rw [crlf_break]
          simp [show Text.isBlank '\r' = true by decide, show Text.isBlank '\n' = true by decide]
        · rw [apply_cons_of_ne _ _ hc]
          simp
  cases hkey : textKey? cs with
  | some p =>
      obtain ⟨key, rest⟩ := p
      obtain ⟨rfl, hword, hrest⟩ := textKey?_eq_some.mp hkey
      refine textKey?_eq_some.mpr ⟨?_, hword, (hfirst rest).mpr hrest⟩
      rw [apply_append, apply_of_not_mem _ (not_mem_of_isTextKey hword).1]
  | none =>
      rw [Option.map_none, Option.eq_none_iff_forall_ne_some]
      rintro ⟨key, rest⟩ hsome
      obtain ⟨happly, hword, hrest⟩ := textKey?_eq_some.mp hsome
      obtain ⟨hbreak, hreturn⟩ := not_mem_of_isTextKey hword
      obtain ⟨rest', rfl, rfl⟩ := append_of_apply happly hbreak hreturn
      rw [textKey?_eq_some.mpr ⟨rfl, hword, (hfirst rest').mp hrest⟩] at hkey
      cases hkey

theorem listItem_apply {cs : List Char} (h : Breakable cs) :
    listItem (crlf.apply cs) = inCrlf (listItem cs) := by
  by_cases hquote : cs.head? = some '"'
  · obtain ⟨cs, rfl⟩ := List.head?_eq_some_iff.mp hquote
    rw [apply_cons_of_ne _ _ (by decide), listItem_quote, listItem_quote, quotedString_apply h.tail,
      inCrlf_inside]
  have hkey := textKey?_apply cs
  cases hword : textKey? cs with
  | none =>
      rw [hword] at hkey
      rw [listItem_none (mt (head?_crlf cs (by decide) (by decide)).mp hquote) hkey,
        listItem_none hquote hword]
      simp [inCrlf, Broken.inCrlf]
  | some p =>
      obtain ⟨key, rest⟩ := p
      rw [hword] at hkey
      obtain ⟨rfl, hword', -⟩ := textKey?_eq_some.mp hword
      have hreturn : '\r' ∉ rest := fun hmem => h.noReturn (List.mem_append_right _ hmem)
      rw [listItem_key hkey, listItem_key hword,
        multilineString_apply (not_mem_of_isTextKey hword').1 hreturn, inCrlf_inside]

/-- What stops blanks and comments is no line break, so that it stops them in both texts, and it opens a
bracket comment in both or in none. -/
theorem filler_apply_cons {cs rest : List Char} {c : Char} (h : Breakable cs)
    (hr : (filler cs).2 = c :: rest) :
    filler (crlf.apply cs) = (crlf.apply (filler cs).1, c :: crlf.apply rest) ∧ c ≠ '\n' ∧
      Breakable (c :: rest) ∧
      ((crlf.apply rest).head? == some '*') = (rest.head? == some '*') := by
  have hsplit : filler cs = ((filler cs).1, c :: rest) := by rw [← hr]
  have hbreak : c ≠ '\n' := by
    rintro rfl
    exact absurd (not_blank_of_filler hsplit) (by decide)
  have happend : (filler cs).1 ++ c :: rest = cs := hr ▸ filler_append cs
  refine ⟨?_, hbreak, h.rest happend, ?_⟩
  · rw [filler_apply h, hr, apply_cons_of_ne _ _ hbreak]
  · exact head?_crlf_beq rest

theorem listTail_apply {state : ListState} {cs : List Char} (h : Breakable cs) :
    listTail state (crlf.apply cs) = inCrlf (listTail state cs) := by
  fun_induction listTail state cs with
  | case1 state cs hr =>
      have hfiller := filler_apply h
      rw [hr, apply_nil] at hfiller
      rw [listTail_of_filler_nil hfiller]
      rfl
  | case2 state cs space c rest hr hopen =>
      obtain ⟨hspace, -, -, hsame⟩ := filler_apply_cons h hr
      rw [listTail_of_filler hspace, hsame, if_pos hopen]
      rfl
  | case3 state cs space c rest hr hopen hclose =>
      obtain ⟨hspace, hbreak, -, hsame⟩ := filler_apply_cons h hr
      rw [listTail_of_filler hspace, hsame, if_neg hopen, if_pos hclose]
      simp [inCrlf, Taken.inCrlf, apply_cons_of_ne _ _ hbreak, space]
  | case4 state cs space c rest hr hopen hclose hstate hcomma u hu ih =>
      obtain ⟨hspace, hbreak, hrest, hsame⟩ := filler_apply_cons h hr
      rw [listTail_of_filler hspace, hsame, if_neg hopen, if_neg hclose, if_pos hstate, if_pos hcomma,
        ih hrest.tail, hu]
      simp [inCrlf, Taken.inCrlf_after, apply_cons_of_ne _ _ hbreak, space]
  | case5 state cs space c rest hr hopen hclose hstate hcomma b hb ih =>
      obtain ⟨hspace, hbreak, hrest, hsame⟩ := filler_apply_cons h hr
      rw [listTail_of_filler hspace, hsame, if_neg hopen, if_neg hclose, if_pos hstate, if_pos hcomma,
        ih hrest.tail, hb]
      simp [inCrlf, Broken.inCrlf_after, apply_cons_of_ne _ _ hbreak, space]
  | case6 state cs space c rest hr hopen hclose hstate hcomma =>
      obtain ⟨hspace, -, -, hsame⟩ := filler_apply_cons h hr
      rw [listTail_of_filler hspace, hsame, if_neg hopen, if_neg hclose, if_pos hstate, if_neg hcomma]
      rfl
  | case7 state cs space c rest hr hopen hclose hstate b hi =>
      obtain ⟨hspace, hbreak, hrest, hsame⟩ := filler_apply_cons h hr
      have hitem := listItem_apply hrest
      rw [apply_cons_of_ne _ _ hbreak, hi] at hitem
      rw [listTail_of_filler hspace, hsame, if_neg hopen, if_neg hclose, if_neg hstate, hitem]
      simp [inCrlf, Broken.inCrlf_after, space]
  | case8 state cs space c rest hr hopen hclose hstate item hi u hu ih =>
      obtain ⟨hspace, hbreak, hrest, hsame⟩ := filler_apply_cons h hr
      have hitem := listItem_apply hrest
      have htail := ih (hrest.rest (listItem_append hi))
      rw [apply_cons_of_ne _ _ hbreak, hi] at hitem
      rw [hu] at htail
      rw [listTail_of_filler hspace, hsame, if_neg hopen, if_neg hclose, if_neg hstate, hitem]
      simp only [inCrlf, show item.inCrlf.rest = crlf.apply item.rest from rfl, htail]
      simp [Taken.inCrlf, Taken.after, Taken.map, space]
  | case9 state cs space c rest hr hopen hclose hstate item hi b hb ih =>
      obtain ⟨hspace, hbreak, hrest, hsame⟩ := filler_apply_cons h hr
      have hitem := listItem_apply hrest
      have htail := ih (hrest.rest (listItem_append hi))
      rw [apply_cons_of_ne _ _ hbreak, hi] at hitem
      rw [hb] at htail
      rw [listTail_of_filler hspace, hsame, if_neg hopen, if_neg hclose, if_neg hstate, hitem]
      simp only [inCrlf, show item.inCrlf.rest = crlf.apply item.rest from rfl, htail]
      simp [Broken.inCrlf_after, Taken.inCrlf, space]

theorem stringList_apply {cs : List Char} (h : Breakable cs) :
    stringList (crlf.apply cs) = inCrlf (stringList cs) := by
  have hopen : crlf.apply ['['] = ['['] := apply_of_not_mem _ (by decide)
  rw [stringList, stringList, listTail_apply h]
  cases listTail .opened cs with
  | ok t => simp only [inCrlf, Taken.inCrlf_after, hopen]
  | error b => simp only [inCrlf, Broken.inCrlf_after, hopen]

/-! ## All lexemes -/

theorem wordTail_apply (cs : List Char) :
    wordTail (crlf.apply cs) = ((wordTail cs).1, crlf.apply (wordTail cs).2) := by
  induction cs with
  | nil => simp [wordTail]
  | cons c cs ih =>
      by_cases hc : c = '\n'
      · subst hc
        rw [crlf_break, wordTail_blank _ (by decide), wordTail_blank _ (by decide), crlf_break]
      · rw [apply_cons_of_ne _ _ hc, wordTail, wordTail, head?_crlf_beq]
        split
        · rw [apply_cons_of_ne _ _ hc]
        · rw [ih]

theorem wordLexeme_apply {word cs : List Char} (hword : '\n' ∉ word) (h : '\r' ∉ cs) :
    wordLexeme word (crlf.apply cs) = inCrlf (wordLexeme word cs) := by
  unfold wordLexeme
  split
  · rw [multilineString_apply hword h, inCrlf_map]
  · simp [inCrlf, Taken.inCrlf, apply_of_not_mem _ hword]

theorem wordAt_apply (c : Char) {word rest : List Char} (hword : '\n' ∉ word) (h : '\r' ∉ rest) :
    wordAt c (word, crlf.apply rest) = inCrlf (wordAt c (word, rest)) := by
  cases word with
  | nil => simp [wordAt, inCrlf, Broken.inCrlf]
  | cons d word =>
      rw [wordAt_of_ne_nil (List.cons_ne_nil _ _), wordAt_of_ne_nil (List.cons_ne_nil _ _)]
      exact wordLexeme_apply hword h

/-- The lexeme at the front of a text is the same with the longer line breaks, unless it is a blank or
takes the line. -/
theorem next_apply {c : Char} {cs : List Char} (h : Breakable (c :: cs))
    (hblank : Text.isBlank c = false) (hhash : c ≠ '#') :
    next c (crlf.apply cs) = inCrlf (next c cs) := by
  have hbreak : c ≠ '\n' := by
    rintro rfl
    exact absurd hblank (by decide)
  have hhash' : (c == '#') = false := by simpa using hhash
  simp only [next, hblank, hhash', Bool.false_eq_true, if_false, head?_crlf_beq]
  split
  · next hopen =>
      simp only [Bool.and_eq_true, beq_iff_eq] at hopen
      obtain ⟨cs, rfl⟩ := List.head?_eq_some_iff.mp hopen.2
      rw [apply_cons_of_ne _ _ (by decide), List.tail_cons, List.tail_cons,
        bracketComment_apply h.tail.tail, inCrlf_map]
  split
  · rw [quotedString_apply h.tail, inCrlf_map]
  split
  · rw [stringList_apply h.tail, inCrlf_map]
  split
  · rfl
  split
  · next item hsign =>
      simp [inCrlf, Taken.inCrlf, apply_cons_of_ne _ _ hbreak]
  · have hword : '\n' ∉ (wordTail (c :: cs)).1 := fun hmem =>
      absurd ((isWord_wordTail (c :: cs)).1 _ hmem).1 (by decide)
    have hreturn : '\r' ∉ (wordTail (c :: cs)).2 := fun hmem =>
      h.noReturn (wordTail_append (c :: cs) ▸ List.mem_append_right _ hmem)
    rw [← apply_cons_of_ne _ _ hbreak, wordTail_apply]
    exact wordAt_apply c hword hreturn

end Lexeme

end MailFilter
