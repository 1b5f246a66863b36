import MailFilter.Proofs.Lexeme.Readers
import MailFilter.Proofs.Lexeme.Words

/-!
# Lexemes on their own

What a reader takes from the front of a text it takes again from its own text, with anything it does
not reach put after it.  So the lexeme at the front of a text is read alike when it stands alone, and
no lexeme depends on what comes after its end.
-/

namespace MailFilter.Lexeme

/-! ## Comments and quoted strings -/

theorem bracketTail_ne_nil {cs : List Char} {t : Taken (List Char)} (h : bracketTail cs = some t) :
    t.text ≠ [] := by
  fun_induction bracketTail cs generalizing t with
  | case1 => cases h
  | case2 =>
      cases h
      exact List.cons_ne_nil _ _
  | case3 | case4 =>
      obtain ⟨u, -, rfl⟩ := Option.map_eq_some_iff.mp h
      exact List.cons_ne_nil _ _

theorem quotedTail_ne_nil {cs : List Char} {t : Taken (List Char)} (h : quotedTail cs = some t) :
    t.text ≠ [] := by
  fun_induction quotedTail cs generalizing t with
  | case1 => cases h
  | case2 =>
      cases h
      exact List.cons_ne_nil _ _
  | case4 => cases h
  | case3 | case5 | case6 =>
      obtain ⟨u, -, rfl⟩ := Option.map_eq_some_iff.mp h
      exact List.cons_ne_nil _ _

theorem head?_append_text {γ : Type} {t : Taken γ} {cs : List Char} (hne : t.text ≠ [])
    (happend : t.text ++ t.rest = cs) (rest : List Char) : (t.text ++ rest).head? = cs.head? := by
  rw [← happend, List.head?_append_of_ne_nil _ hne, List.head?_append_of_ne_nil _ hne]

theorem bracketTail_alone {cs : List Char} {t : Taken (List Char)} (h : bracketTail cs = some t)
    (rest : List Char) : bracketTail (t.text ++ rest) = some ⟨t.value, t.text, rest⟩ := by
  fun_induction bracketTail cs generalizing t with
  | case1 => cases h
  | case2 =>
      cases h
      exact bracketTail_close rest
  | case3 cs ih =>
      obtain ⟨u, hu, rfl⟩ := Option.map_eq_some_iff.mp h
      rw [List.cons_append, List.cons_append, bracketTail_crlf, ih hu]
      rfl
  | case4 c cs hclose hreturn ih =>
      obtain ⟨u, hu, rfl⟩ := Option.map_eq_some_iff.mp h
      have hhead := head?_append_text (bracketTail_ne_nil hu) (bracketTail_append hu) rest
      rw [List.cons_append, bracketTail_plain, ih hu]
      · rfl
      · rintro rfl hslash
        obtain ⟨ds, rfl⟩ := List.head?_eq_some_iff.mp (hhead ▸ hslash)
        exact hclose ds rfl rfl
      · rintro rfl hbreak
        obtain ⟨ds, rfl⟩ := List.head?_eq_some_iff.mp (hhead ▸ hbreak)
        exact hreturn ds rfl rfl

theorem quotedTail_alone {cs : List Char} {t : Taken (List Char)} (h : quotedTail cs = some t)
    (rest : List Char) : quotedTail (t.text ++ rest) = some ⟨t.value, t.text, rest⟩ := by
  fun_induction quotedTail cs generalizing t with
  | case1 => cases h
  | case2 =>
      cases h
      exact quotedTail_quote rest
  | case3 c cs ih =>
      obtain ⟨u, hu, rfl⟩ := Option.map_eq_some_iff.mp h
      rw [List.cons_append, List.cons_append, quotedTail_escaped, ih hu]
      rfl
  | case4 => cases h
  | case5 cs ih =>
      obtain ⟨u, hu, rfl⟩ := Option.map_eq_some_iff.mp h
      rw [List.cons_append, List.cons_append, quotedTail_crlf, ih hu]
      rfl
  | case6 c cs hquote hslash hlast hreturn ih =>
      obtain ⟨u, hu, rfl⟩ := Option.map_eq_some_iff.mp h
      have hhead := head?_append_text (quotedTail_ne_nil hu) (quotedTail_append hu) rest
      rw [List.cons_append, quotedTail_next hquote, ih hu]
      · rfl
      · rintro rfl
        cases cs with
        | nil => exact hlast rfl rfl
        | cons d cs => exact hslash d cs rfl rfl
      · rintro rfl hbreak
        obtain ⟨ds, rfl⟩ := List.head?_eq_some_iff.mp (hhead ▸ hbreak)
        exact hreturn ds rfl rfl

theorem quotedString_alone {cs : List Char} {t : Taken String} (h : quotedString cs = .ok t) :
    ∃ text, t.text = '"' :: text ∧
      ∀ rest, quotedString (text ++ rest) = .ok ⟨t.value, t.text, rest⟩ := by
  unfold quotedString at h
  split at h
  · next u hu =>
      cases h
      refine ⟨u.text, rfl, fun rest => ?_⟩
      rw [quotedString, quotedTail_alone hu rest]
      rfl
  · cases h

theorem bracketComment_alone {cs : List Char} {t : Taken String} (h : bracketComment cs = .ok t) :
    ∃ text, t.text = '/' :: '*' :: text ∧
      ∀ rest, bracketComment (text ++ rest) = .ok ⟨t.value, t.text, rest⟩ := by
  unfold bracketComment at h
  split at h
  · next u hu =>
      cases h
      refine ⟨u.text, rfl, fun rest => ?_⟩
      rw [bracketComment, bracketTail_alone hu rest]
      rfl
  · cases h

theorem lineRest_alone (cs rest : List Char) (h : ∀ c ∈ rest.head?, c = '\n') :
    lineRest ((lineRest cs).text ++ rest) = ⟨(lineRest cs).value, (lineRest cs).text, rest⟩ :=
  lineRest_of rest (fun hmem => by simpa using List.mem_takeWhile_imp hmem) h

/-! ## Multi-line strings -/

theorem multilineLines_alone {cs : List Char} {t : Taken (List (List Char))}
    (h : multilineLines cs = some t) {rest : List Char} (hend : t.rest ≠ [] ∨ rest = []) :
    multilineLines (t.text ++ rest) = some ⟨t.value, t.text, rest⟩ := by
  have hbreak : ∀ cs : List Char, '\n' ∉ cs.takeWhile (· != '\n') := fun cs hmem => by
    simpa using List.mem_takeWhile_imp hmem
  have hfeed : ∀ {c : Char} {cs rest : List Char}, cs.dropWhile (· != '\n') = c :: rest → c = '\n' := by
    intro c cs rest hdrop
    have := not_of_mem_head?_dropWhile c (show c ∈ (cs.dropWhile (· != '\n')).head? by rw [hdrop]; rfl)
    simpa using this
  fun_induction multilineLines cs generalizing t with
  | case1 cs line hdrop =>
      rename_i hdot
      cases h
      obtain rfl := hend.resolve_left (not_not_intro rfl)
      rw [List.append_nil, multilineLines_last (hbreak cs), if_pos hdot]
  | case2 => cases h
  | case3 cs line c rest' hdrop =>
      rename_i hdot
      cases h
      obtain rfl := hfeed hdrop
      rw [List.append_assoc, List.singleton_append, multilineLines_line rest (hbreak cs), if_pos hdot]
  | case4 cs line c rest' hdrop hdot =>
      rename_i ih
      obtain ⟨u, hu, rfl⟩ := Option.map_eq_some_iff.mp h
      obtain rfl := hfeed hdrop
      rw [List.append_assoc, List.cons_append, multilineLines_line _ (hbreak cs), if_neg hdot,
        ih hu hend]
      rfl

/-- A line that opens a multi-line string, after its keyword: spaces, perhaps a comment, and the end of
the line.  A carriage return after a comment belongs to it. -/
structure HeaderLine (space comment brk : List Char) : Prop where
  space : ∀ c ∈ space, c = ' ' ∨ c = '\t'
  ends : comment = [] ∧ (brk = ['\n'] ∨ brk = ['\r', '\n']) ∨
    (∃ line, comment = '#' :: line ∧ '\n' ∉ line) ∧ brk = ['\n']

theorem HeaderLine.read {space comment brk : List Char} (h : HeaderLine space comment brk)
    (rest : List Char) :
    multilineHeader (space ++ comment ++ brk ++ rest) = .ok ⟨(), space ++ comment ++ brk, rest⟩ := by
  rcases h.ends with ⟨rfl, rfl | rfl⟩ | ⟨⟨line, rfl, hline⟩, rfl⟩
  · have hspaces := spaces_append_stop ('\n' :: rest) h.space (by simp)
    simpa using multilineHeader_of hspaces rfl
  · have hspaces := spaces_append_stop ('\r' :: '\n' :: rest) h.space (by simp)
    simpa using multilineHeader_of hspaces rfl
  · have hspaces := spaces_append_stop ('#' :: line ++ '\n' :: rest) h.space (by simp)
    have hcomment := lineComment_hash ('\n' :: rest) hline (by simp)
    simpa using multilineHeader_of hspaces hcomment

theorem headerLine_of_ok {cs : List Char} {t : Taken Unit} (h : multilineHeader cs = .ok t) :
    ∃ space comment brk, HeaderLine space comment brk ∧ t.text = space ++ comment ++ brk := by
  have hspace : ∀ c ∈ (spaces cs).1, c = ' ' ∨ c = '\t' := fun c hc => by
    simpa using List.mem_takeWhile_imp hc
  rcases lineComment_cases (spaces cs).2 with hnone | ⟨hhash, hline, hbreak⟩
  · rw [multilineHeader_of (Prod.eta _).symm hnone] at h
    split at h <;> cases h
    · exact ⟨_, [], ['\n'], ⟨hspace, .inl ⟨rfl, .inl rfl⟩⟩, rfl⟩
    · exact ⟨_, [], ['\r', '\n'], ⟨hspace, .inl ⟨rfl, .inr rfl⟩⟩, rfl⟩
  · obtain ⟨line, hcomment⟩ := List.head?_eq_some_iff.mp hhash
    rw [multilineHeader_of (Prod.eta _).symm (Prod.eta _).symm] at h
    split at h
    · cases h
      refine ⟨_, _, ['\n'], ⟨hspace, .inr ⟨⟨line, hcomment, ?_⟩, rfl⟩⟩, rfl⟩
      rw [hcomment] at hline
      exact fun hmem => hline (List.mem_cons_of_mem _ hmem)
    · next hreturn =>
        have := hbreak '\r' (by rw [hreturn]; rfl)
        contradiction
    · cases h

theorem multilineHeader_alone {cs : List Char} {t : Taken Unit} (h : multilineHeader cs = .ok t)
    (rest : List Char) : multilineHeader (t.text ++ rest) = .ok ⟨(), t.text, rest⟩ := by
  obtain ⟨space, comment, brk, hheader, htext⟩ := headerLine_of_ok h
  rw [htext]
  exact hheader.read rest

theorem HeaderLine.head {space comment brk : List Char} (h : HeaderLine space comment brk) :
    ∃ c, (space ++ comment ++ brk).head? = some c ∧ (Text.isBlank c = true ∨ c = '#') := by
  cases hspace : space with
  | cons c space =>
      refine ⟨c, rfl, .inl ?_⟩
      rcases h.space c (hspace ▸ List.mem_cons_self) with rfl | rfl <;> decide
  | nil =>
      rcases h.ends with ⟨rfl, rfl | rfl⟩ | ⟨⟨line, rfl, -⟩, rfl⟩
      · exact ⟨'\n', rfl, .inl (by decide)⟩
      · exact ⟨'\r', rfl, .inl (by decide)⟩
      · exact ⟨'#', rfl, .inr rfl⟩

theorem multilineString_alone {key cs : List Char} {t : Taken String}
    (h : multilineString key cs = .ok t) :
    ∃ text c, t.text = key ++ text ∧ text.head? = some c ∧ (Text.isBlank c = true ∨ c = '#') ∧
      ∀ rest, t.rest ≠ [] ∨ rest = [] →
        multilineString key (text ++ rest) = .ok ⟨t.value, t.text, rest⟩ := by
  unfold multilineString at h
  split at h
  · cases h
  next header hheader =>
  split at h
  · next u hu =>
      cases h
      obtain ⟨space, comment, brk, hline, htext⟩ := headerLine_of_ok hheader
      obtain ⟨c, hhead, hc⟩ := hline.head
      rw [← htext] at hhead
      refine ⟨header.text ++ u.text, c, by simp, ?_, hc, fun rest hend => ?_⟩
      · rw [List.head?_append_of_ne_nil _ (by rintro hnil; rw [hnil] at hhead; cases hhead), hhead]
      · rw [multilineString, List.append_assoc, multilineHeader_alone hheader]
        dsimp only
        rw [multilineLines_alone hu hend]
        rfl
  · cases h

/-! ## Lists of strings -/

theorem filler_alone {cs space rest : List Char} {c : Char} (h : filler cs = (space, c :: rest))
    (hc : c ≠ '/') (rest' : List Char) : filler (space ++ c :: rest') = (space, c :: rest') := by
  have hsame : ∀ {text ds : List Char}, filler ds = (text, c :: rest) →
      (text ++ c :: rest').head? = ds.head? := by
    intro text ds hds
    have happend := filler_append ds
    rw [hds] at happend
    rw [← happend]
    cases text <;> rfl
  fun_induction filler cs generalizing space with
  | case1 => cases h
  | case2 d cs hd text rest₂ hf ih =>
      cases h
      rw [List.cons_append, filler_blank _ hd, ih hf]
  | case3 d cs hd hhash text rest₂ hf ih =>
      cases h
      obtain rfl : d = '#' := by simpa using hhash
      have hline := lineRest_alone cs (text ++ c :: rest') fun e he => by
        rw [hsame hf] at he
        simpa using not_of_mem_head?_dropWhile e he
      rw [List.append_assoc, List.cons_append, filler_hash, hline, ih hf]
  | case4 d cs hd hhash hopen t ht text rest₂ hf ih =>
      cases h
      rw [List.append_assoc, List.cons_append, List.cons_append,
        filler_bracket (bracketTail_alone ht _), ih hf]
  | case5 d cs hd hhash hopen ht =>
      cases h
      simp only [Bool.and_eq_true, beq_iff_eq] at hopen
      exact absurd hopen.1 hc
  | case6 d cs hd hhash hopen =>
      cases h
      exact filler_of_not_opening rest' (by simpa using hd) (by simpa using hhash) hc

theorem listItem_alone {cs : List Char} {t : Taken String} (h : listItem cs = .ok t) :
    ∃ c text, t.text = c :: text ∧ cs.head? = some c ∧ c ≠ '/' ∧
      ∀ rest, t.rest ≠ [] ∨ rest = [] →
        listItem (c :: (text ++ rest)) = .ok ⟨t.value, t.text, rest⟩ := by
  unfold listItem at h
  split at h
  · next cs =>
      cases hquoted : quotedString cs <;> rw [hquoted] at h <;> cases h
      obtain ⟨text, htext, hread⟩ := quotedString_alone hquoted
      refine ⟨'"', text, htext, rfl, by decide, fun rest _ => ?_⟩
      rw [listItem_quote, hread]
      rfl
  split at h
  · next key rest' hkey =>
      obtain ⟨rfl, hword, -⟩ := textKey?_eq_some.mp hkey
      obtain ⟨c, hhead, -, hslash⟩ := head?_ne_of_isTextKey hword
      obtain ⟨key, rfl⟩ := List.head?_eq_some_iff.mp hhead
      cases hstring : multilineString (c :: key) rest' <;> rw [hstring] at h <;> cases h
      obtain ⟨text, d, htext, hfirst, hd, hread⟩ := multilineString_alone hstring
      refine ⟨c, key ++ text, htext, rfl, hslash, fun rest hend => ?_⟩
      have hopens : textKey? (c :: key ++ (text ++ rest)) = some (c :: key, text ++ rest) := by
        refine textKey?_eq_some.mpr ⟨rfl, hword, fun e he => ?_⟩
        obtain ⟨ds, rfl⟩ := List.head?_eq_some_iff.mp hfirst
        obtain rfl : d = e := by simpa using he
        exact hd
      rw [List.append_assoc, ← List.cons_append, listItem_key hopens, hread rest hend]
      rfl
  · cases h

theorem listTail_alone {state : ListState} {cs : List Char} {t : Taken (List String)}
    (h : listTail state cs = .ok t) (rest : List Char) :
    listTail state (t.text ++ rest) = .ok ⟨t.value, t.text, rest⟩ := by
  have hfiller : ∀ {cs : List Char} {c : Char} {rest : List Char}, (filler cs).2 = c :: rest →
      filler cs = ((filler cs).1, c :: rest) := fun hrest => by rw [← hrest]
  fun_induction listTail state cs generalizing t <;> cases h
  case case3 state cs space c rest' hr _ hclose =>
    obtain ⟨rfl, hstate⟩ : c = ']' ∧ state ≠ .afterComma := by simpa using hclose
    have hspace := filler_alone (hfiller hr) (by decide) rest
    rw [List.append_assoc, List.singleton_append, listTail_of_filler hspace, if_neg (by simp),
      if_pos hclose]
  case case4 state cs space c rest' hr _ hclose hstate hcomma u hu ih =>
    obtain rfl : c = ',' := by simpa using hcomma
    have hspace := filler_alone (hfiller hr) (by decide) (u.text ++ rest)
    rw [Taken.text_after, List.append_assoc, List.append_assoc, List.singleton_append,
      listTail_of_filler hspace, if_neg (by simp), if_neg (by simp), if_pos hstate, if_pos hcomma, ih hu]
    rfl
  case case8 state cs space c rest' hr _ hclose hstate item hi u hu ih =>
    obtain ⟨d, text, htext, hd, hslash, hread⟩ := listItem_alone hi
    obtain rfl : c = d := by simpa using hd
    have hspace := filler_alone (hfiller hr) hslash (text ++ (u.text ++ rest))
    have hitem := hread (u.text ++ rest) (.inl fun hnil => by
      rw [hnil, listTail_of_filler_nil filler_nil] at hu
      cases hu)
    rw [Taken.text_after, Taken.text_map, htext, List.append_assoc, List.append_assoc, List.cons_append,
      listTail_of_filler hspace, if_neg (by simp [hslash]), if_neg hclose, if_neg hstate, hitem]
    simp only [ih hu, htext]
    rfl

theorem stringList_alone {cs : List Char} {t : Taken (List String)} (h : stringList cs = .ok t) :
    ∃ text, t.text = '[' :: text ∧
      ∀ rest, stringList (text ++ rest) = .ok ⟨t.value, t.text, rest⟩ := by
  unfold stringList at h
  split at h
  · next u hu =>
      cases h
      refine ⟨u.text, rfl, fun rest => ?_⟩
      rw [stringList, listTail_alone hu rest]
      rfl
  · cases h

/-! ## What a reader sees ahead -/

/-- A text goes on as another one does, as far as a reader looks ahead, or it ends: it has the same first
character, and a bracket comment opens both or neither. -/
def SameAhead (rest rest' : List Char) : Prop :=
  ∀ c ∈ rest'.head?, rest.head? = some c ∧ (['/', '*'] <+: rest ↔ ['/', '*'] <+: rest')

theorem sameAhead_nil (rest : List Char) : SameAhead rest [] := nofun

theorem sameAhead_cons {c : Char} (hc : c ≠ '/') (rest rest' : List Char) :
    SameAhead (c :: rest) (c :: rest') := by
  rintro d ⟨⟩
  refine ⟨rfl, iff_of_false ?_ ?_⟩ <;>
  · intro hopen
    exact hc (List.cons_prefix_cons.mp hopen).1.symm

theorem SameAhead.head? {rest rest' : List Char} (h : SameAhead rest rest') (hne : rest' ≠ []) :
    rest.head? = rest'.head? := by
  cases rest' with
  | nil => exact absurd rfl hne
  | cons c rest' => exact (h c rfl).1

theorem SameAhead.append {rest rest' : List Char} (h : SameAhead rest rest') (hne : rest' ≠ [])
    (text : List Char) : SameAhead (text ++ rest) (text ++ rest') := by
  have hsecond : ∀ ds : List Char, ['*'] <+: ds ↔ ds.head? = some '*' := fun ds => by
    cases ds <;> simp [List.cons_prefix_cons, eq_comm]
  match text with
  | [] => exact h
  | d :: text =>
      rintro _ ⟨⟩
      refine ⟨rfl, ?_⟩
      simp only [List.cons_append, List.cons_prefix_cons, hsecond]
      cases text with
      | nil => rw [List.nil_append, List.nil_append, h.head? hne]
      | cons e text => rfl

/-! ## All lexemes -/

theorem wordTail_ahead {cs rest : List Char} (h : SameAhead (wordTail cs).2 rest) :
    wordTail ((wordTail cs).1 ++ rest) = ((wordTail cs).1, rest) := by
  fun_induction wordTail cs with
  | case1 =>
      cases rest with
      | nil => rfl
      | cons d rest => cases (h d rfl).1
  | case2 c cs hstop =>
      cases rest with
      | nil => rfl
      | cons d rest =>
          obtain ⟨⟨⟩, hopen⟩ := h d rfl
          have hstar : cs.head? = some '*' → c = '/' → rest.head? = some '*' := by
            rintro hstar rfl
            obtain ⟨cs, rfl⟩ := List.head?_eq_some_iff.mp hstar
            obtain ⟨rest', hrest⟩ := hopen.mp (List.prefix_append ['/', '*'] cs)
            rw [← (List.cons.inj hrest).2]
            rfl
          rw [List.nil_append, wordTail, if_pos]
          simp only [Bool.or_eq_true, Bool.and_eq_true, beq_iff_eq] at hstop ⊢
          exact hstop.imp_right fun hopens => ⟨hopens.1, hstar hopens.2 hopens.1⟩
  | case3 c cs hgo ih =>
      have happend := wordTail_append cs
      have hstar : ((wordTail cs).1 ++ rest).head? = some '*' → cs.head? = some '*' := by
        intro hstar
        rw [← happend]
        cases hword : (wordTail cs).1 with
        | nil =>
            rw [hword] at hstar
            exact (h '*' hstar).1
        | cons d word =>
            rw [hword] at hstar
            exact hstar
      rw [List.cons_append, wordTail, if_neg, ih h]
      simp only [Bool.or_eq_true, Bool.and_eq_true, beq_iff_eq, not_or, not_and] at hgo ⊢
      exact ⟨hgo.1, fun hslash => mt hstar (hgo.2 hslash)⟩

theorem wordTail_before {c : Char} {cs word after rest : List Char}
    (hword : wordTail (c :: cs) = (c :: word, after)) (h : SameAhead after rest) :
    wordTail (c :: (word ++ rest)) = (c :: word, rest) := by
  have hahead : SameAhead (wordTail (c :: cs)).2 rest := by rwa [hword]
  have htail := wordTail_ahead hahead
  rwa [hword] at htail

theorem multilineString_ahead {key cs : List Char} {t : Taken String}
    (h : multilineString key cs = .ok t) :
    ∃ text, t.text = key ++ text ∧ ∀ rest, SameAhead t.rest rest →
      SameAhead cs (text ++ rest) ∧
        multilineString key (text ++ rest) = .ok ⟨t.value, t.text, rest⟩ := by
  obtain ⟨text, c, htext, hfirst, hc, hread⟩ := multilineString_alone h
  refine ⟨text, htext, fun rest hahead => ⟨?_, hread rest ?_⟩⟩
  · have happend := multilineString_append h
    rw [htext, List.append_assoc, List.append_cancel_left_eq] at happend
    obtain ⟨ds, rfl⟩ := List.head?_eq_some_iff.mp hfirst
    rw [← happend]
    refine sameAhead_cons ?_ _ _
    rintro rfl
    revert hc
    decide
  · refine or_iff_not_imp_right.mpr fun hne hnil => hne ?_
    rw [← List.head?_eq_none_iff, ← hahead.head? hne, hnil]
    rfl

/-- The lexeme at the front of a text is read alike in front of whatever goes on as the text does. -/
theorem next_ahead {c : Char} {cs : List Char} {t : Taken (Option Item)} (h : next c cs = .ok t) :
    ∃ text, t.text = c :: text ∧ ∀ rest, SameAhead t.rest rest →
      next c (text ++ rest) = .ok ⟨t.value, t.text, rest⟩ := by
  have hstop : ∀ {p : Char → Bool} {cs rest : List Char}, SameAhead (cs.dropWhile p) rest →
      ∀ d ∈ rest.head?, p d = false := fun hahead d hd =>
    not_of_mem_head?_dropWhile d (hahead d hd).1
  cases isNext_of_next h with
  | blank hblank =>
      refine ⟨_, rfl, fun rest hahead => ?_⟩
      obtain ⟨htake, hdrop⟩ := span_takeWhile cs rest (hstop hahead)
      rw [next_blank _ hblank, htake, hdrop]
  | lineComment hu =>
      cases hu
      refine ⟨(lineRest cs).text, rfl, fun rest hahead => next_of_isNext (.lineComment ?_)⟩
      have hline := lineRest_alone cs rest fun d hd => by simpa using hstop hahead d hd
      rw [hashComment, hline]
      rfl
  | bracketComment hu =>
      obtain ⟨text, htext, hread⟩ := bracketComment_alone hu
      exact ⟨'*' :: text, htext, fun rest _ => next_of_isNext (.bracketComment (hread rest))⟩
  | quoted hu =>
      obtain ⟨text, htext, hread⟩ := quotedString_alone hu
      exact ⟨text, htext, fun rest _ => next_of_isNext (.quoted (hread rest))⟩
  | strings hu =>
      obtain ⟨text, htext, hread⟩ := stringList_alone hu
      exact ⟨text, htext, fun rest _ => next_of_isNext (.strings (hread rest))⟩
  | sign hsign => exact ⟨[], rfl, fun rest _ => next_sign hsign rest⟩
  | @multiline _ _ word _ _ _ _ hword hkey hu =>
      obtain ⟨text, htext, hread⟩ := multilineString_ahead hu
      refine ⟨word ++ text, htext, fun rest hahead => next_of_isNext ?_⟩
      obtain ⟨hsame, hagain⟩ := hread rest hahead
      rw [List.append_assoc]
      exact .multiline (wordTail_before hword hsame) hkey hagain
  | word hword hkey =>
      exact ⟨_, rfl, fun rest hahead => next_of_isNext (.word (wordTail_before hword hahead) hkey)⟩

/-- The lexeme at the front of a text is read alike from its own text. -/
theorem next_alone {c : Char} {cs : List Char} {t : Taken (Option Item)} (h : next c cs = .ok t) :
    ∃ text, t.text = c :: text ∧ next c text = .ok ⟨t.value, t.text, []⟩ := by
  obtain ⟨text, htext, hread⟩ := next_ahead h
  have halone := hread [] (sameAhead_nil _)
  rw [List.append_nil] at halone
  exact ⟨text, htext, halone⟩

end MailFilter.Lexeme
