import MailFilter.Proofs.Lexeme.Words
import MailFilter.Proofs.Text.Trimming

/-!
# The characters of tokens

What the tokens of a text say is made of characters of that text, and of line feeds where lines of it
are put together.
-/

namespace MailFilter

def Over (Q : Char → Prop) (s : String) : Prop := ∀ c ∈ s.toList, Q c

theorem over_ofList {Q : Char → Prop} {cs : List Char} : Over Q (String.ofList cs) ↔ ∀ c ∈ cs, Q c := by
  rw [Over, String.toList_ofList]

/-- The texts that a token has from the source; signs have none. -/
def Item.texts : Item → List String
  | .identifier s | .tag s | .number s | .quoted s | .multiline s | .comment s => [s]
  | .strings values => values
  | _ => []

namespace Lexeme

variable {Q : Char → Prop}

/-! ## Comments and strings -/

theorem forall_lineRest {cs : List Char} (h : ∀ c ∈ cs, Q c) : ∀ c ∈ (lineRest cs).value, Q c :=
  fun c hc => h c (List.takeWhile_subset _ hc)

section Tails

variable (hbreak : Q '\n')

include hbreak

theorem forall_bracketTail {cs : List Char} {t : Taken (List Char)} (ht : bracketTail cs = some t)
    (h : ∀ c ∈ cs, Q c) : ∀ c ∈ t.value, Q c := by
  fun_induction bracketTail cs generalizing t with
  | case1 => cases ht
  | case2 =>
      cases ht
      exact List.forall_mem_nil _
  | case3 cs ih =>
      obtain ⟨u, hu, rfl⟩ := Option.map_eq_some_iff.1 ht
      obtain ⟨-, -, hcs⟩ := by simpa only [List.forall_mem_cons] using h
      exact List.forall_mem_cons.mpr ⟨hbreak, ih hu hcs⟩
  | case4 c cs _ _ ih =>
      obtain ⟨u, hu, rfl⟩ := Option.map_eq_some_iff.1 ht
      obtain ⟨hc, hcs⟩ := List.forall_mem_cons.mp h
      exact List.forall_mem_cons.mpr ⟨hc, ih hu hcs⟩

theorem forall_quotedTail {cs : List Char} {t : Taken (List Char)} (ht : quotedTail cs = some t)
    (h : ∀ c ∈ cs, Q c) : ∀ c ∈ t.value, Q c := by
  fun_induction quotedTail cs generalizing t with
  | case1 => cases ht
  | case2 =>
      cases ht
      exact List.forall_mem_nil _
  | case3 c cs ih =>
      obtain ⟨u, hu, rfl⟩ := Option.map_eq_some_iff.1 ht
      obtain ⟨-, hc, hcs⟩ := by simpa only [List.forall_mem_cons] using h
      exact List.forall_mem_cons.mpr ⟨hc, ih hu hcs⟩
  | case4 => cases ht
  | case5 cs ih =>
      obtain ⟨u, hu, rfl⟩ := Option.map_eq_some_iff.1 ht
      obtain ⟨-, -, hcs⟩ := by simpa only [List.forall_mem_cons] using h
      exact List.forall_mem_cons.mpr ⟨hbreak, ih hu hcs⟩
  | case6 c cs _ _ _ _ ih =>
      obtain ⟨u, hu, rfl⟩ := Option.map_eq_some_iff.1 ht
      obtain ⟨hc, hcs⟩ := List.forall_mem_cons.mp h
      exact List.forall_mem_cons.mpr ⟨hc, ih hu hcs⟩

theorem over_quotedString {cs : List Char} {t : Taken String} (ht : quotedString cs = .ok t)
    (h : ∀ c ∈ cs, Q c) : Over Q t.value := by
  unfold quotedString at ht
  split at ht
  · next u hu =>
      cases ht
      exact over_ofList.mpr (forall_quotedTail hbreak hu h)
  · cases ht

end Tails

theorem subset_unstuff_chomp (line : List Char) : unstuff (chomp line) ⊆ line := by
  have hchomp : chomp line ⊆ line := by
    unfold chomp
    split
    · exact List.dropLast_subset line
    · exact List.Subset.refl line
  refine List.Subset.trans ?_ hchomp
  unfold unstuff
  split
  · next hline =>
      rw [hline]
      exact List.subset_cons_self _ _
  · exact List.Subset.refl _

theorem forall_multilineLines {cs : List Char} {t : Taken (List (List Char))}
    (ht : multilineLines cs = some t) (h : ∀ c ∈ cs, Q c) : ∀ line ∈ t.value, ∀ c ∈ line, Q c := by
  fun_induction multilineLines cs generalizing t with
  | case1 =>
      cases ht
      exact List.forall_mem_nil _
  | case2 => cases ht
  | case3 =>
      cases ht
      exact List.forall_mem_nil _
  | case4 cs line c rest hd =>
      rename_i ih
      obtain ⟨u, hu, rfl⟩ := Option.map_eq_some_iff.1 ht
      have hrest : ∀ c ∈ rest, Q c := by
        intro d hd'
        refine h d (List.dropWhile_subset (p := (· != '\n')) ?_)
        rw [hd]
        exact List.mem_cons_of_mem c hd'
      refine List.forall_mem_cons.mpr ⟨fun d hd' => h d ?_, ih hu hrest⟩
      exact List.takeWhile_subset _ (subset_unstuff_chomp line hd')

theorem forall_rest {γ : Type} {t : Taken γ} {cs : List Char} (happend : t.text ++ t.rest = cs)
    (h : ∀ c ∈ cs, Q c) : ∀ c ∈ t.rest, Q c :=
  fun c hc => h c (happend ▸ List.mem_append_right t.text hc)

theorem forall_intercalate {sep : List Char} {parts : List (List Char)} (hsep : ∀ c ∈ sep, Q c)
    (hparts : ∀ part ∈ parts, ∀ c ∈ part, Q c) : ∀ c ∈ sep.intercalate parts, Q c := by
  intro c hc
  rw [List.intercalate, List.mem_flatten] at hc
  obtain ⟨part, hpart, hc⟩ := hc
  induction parts with
  | nil => cases hpart
  | cons first parts ih =>
      obtain ⟨hfirst, hrest⟩ := List.forall_mem_cons.mp hparts
      cases parts with
      | nil =>
          obtain rfl := List.mem_singleton.mp hpart
          exact hfirst c hc
      | cons second parts =>
          rw [List.intersperse_cons_cons, List.mem_cons, List.mem_cons] at hpart
          rcases hpart with rfl | rfl | hpart
          · exact hfirst c hc
          · exact hsep c hc
          · exact ih hrest hpart

section Items

variable (hbreak : Q '\n')

include hbreak

theorem over_multilineString {key cs : List Char} {t : Taken String}
    (ht : multilineString key cs = .ok t) (h : ∀ c ∈ cs, Q c) : Over Q t.value := by
  unfold multilineString at ht
  split at ht
  · cases ht
  · next header hheader =>
      split at ht
      · next u hu =>
          cases ht
          have hrest := forall_rest (multilineHeader_append hheader) h
          refine over_ofList.mpr (forall_intercalate ?_ (forall_multilineLines hu hrest))
          exact List.forall_mem_singleton.mpr hbreak
      · cases ht

theorem over_listItem {cs : List Char} {t : Taken String} (ht : listItem cs = .ok t)
    (h : ∀ c ∈ cs, Q c) : Over Q t.value := by
  unfold listItem at ht
  split at ht
  · next cs =>
      cases hquoted : quotedString cs <;> rw [hquoted] at ht <;> cases ht
      exact over_quotedString hbreak hquoted (List.forall_mem_cons.mp h).2
  · split at ht
    · next key rest hkey =>
        cases hstring : multilineString key rest <;> rw [hstring] at ht <;> cases ht
        refine over_multilineString hbreak hstring fun c hc => h c ?_
        rw [← (textKey?_append hkey).1]
        exact List.mem_append_right key hc
    · cases ht

theorem over_listTail {state : ListState} {cs : List Char} {t : Taken (List String)}
    (ht : listTail state cs = .ok t) (h : ∀ c ∈ cs, Q c) : ∀ s ∈ t.value, Over Q s := by
  fun_induction listTail state cs generalizing t <;> cases ht
  case case3 => exact List.forall_mem_nil _
  case case4 state cs space c rest hr _ _ _ _ u hu ih =>
    change ∀ s ∈ u.value, Over Q s
    refine ih hu fun d hd => h d ?_
    rw [← filler_append cs, hr]
    exact List.mem_append_right _ (List.mem_cons_of_mem c hd)
  case case8 state cs space c rest hr _ _ _ item hi u hu ih =>
    have hitem : ∀ d ∈ c :: rest, Q d := by
      intro d hd
      refine h d ?_
      rw [← filler_append cs, hr]
      exact List.mem_append_right _ hd
    exact List.forall_mem_cons.mpr ⟨over_listItem hbreak hi hitem,
      ih hu (forall_rest (listItem_append hi) hitem)⟩

/-! ## All tokens -/

theorem over_of_next {c : Char} {cs : List Char} {t : Taken (Option Item)} (ht : next c cs = .ok t)
    (h : ∀ d ∈ c :: cs, Q d) : ∀ item ∈ t.value, ∀ s ∈ item.texts, Over Q s := by
  obtain ⟨-, hcs⟩ := List.forall_mem_cons.mp h
  have hone : ∀ {s : String}, Over Q s → ∀ s' ∈ [s], Over Q s' := List.forall_mem_singleton.mpr
  cases isNext_of_next ht with
  | blank => nofun
  | lineComment hu =>
      cases hu
      rintro _ ⟨⟩
      refine hone (over_ofList.mpr fun d hd => ?_)
      exact forall_lineRest hcs d (Text.dropTrailing_subset _ _ hd)
  | bracketComment hu =>
      rintro _ ⟨⟩
      unfold bracketComment at hu
      split at hu <;> cases hu
      next v hv =>
      exact hone (over_ofList.mpr (forall_bracketTail hbreak hv (List.forall_mem_cons.mp hcs).2))
  | quoted hu =>
      rintro _ ⟨⟩
      exact hone (over_quotedString hbreak hu hcs)
  | strings hu =>
      rintro _ ⟨⟩
      unfold stringList at hu
      split at hu <;> cases hu
      next v hv =>
      exact over_listTail hbreak hv hcs
  | sign hsign =>
      rintro _ ⟨⟩
      unfold sign? at hsign
      split at hsign <;> cases hsign <;> exact List.forall_mem_nil _
  | multiline hword _ hu =>
      rintro _ ⟨⟩
      rw [← wordTail_append (c :: cs), hword, List.forall_mem_append] at h
      exact hone (over_multilineString hbreak hu h.2)
  | word hword =>
      rintro _ ⟨⟩
      rw [← wordTail_append (c :: cs), hword, List.forall_mem_append] at h
      unfold wordItem
      split
      · exact hone (over_ofList.mpr h.1)
      split <;> exact hone (over_ofList.mpr h.1)

theorem over_of_split {cs : List Char} (h : ∀ c ∈ cs, Q c) {l : Lexeme}
    (hl : l ∈ (split cs).lexemes) : ∀ item ∈ l.item, ∀ s ∈ item.texts, Over Q s := by
  fun_induction split cs with
  | case1 => cases hl
  | case2 => cases hl
  | case3 c cs t ht pieces ih =>
      rcases List.mem_cons.1 hl with rfl | hl
      · exact over_of_next hbreak ht h
      · exact ih (forall_rest (next_append ht) h) hl

end Items

end Lexeme

end MailFilter
