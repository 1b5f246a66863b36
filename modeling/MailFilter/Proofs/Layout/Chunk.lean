import Mathlib.Data.List.Forall2
import MailFilter.Proofs.Lexeme.Literals

/-!
# Chunks of a layout

A layout is put together from chunks, and what a chunk spells depends on what stands after it only
where the chunk ends in a word.  `Closed` chunks spell their tokens in front of any text, `Open` ones
in front of a text at which a word ends.  A chunk that ends its line is closed, which is why a layout
may leave out the blank there.
-/

namespace MailFilter.Layout

open Lexeme

/-- A text that spells tokens in front of any text. -/
def Closed (e : LineEnding) (text : List Char) (items : List Item) : Prop :=
  ∀ rest js, Spells rest js → Spells (e.apply text ++ rest) (items ++ js)

/-- A text that spells tokens in front of any text at which a word ends. -/
def Open (e : LineEnding) (text : List Char) (items : List Item) : Prop :=
  ∀ rest js, Stops rest → Spells rest js → Spells (e.apply text ++ rest) (items ++ js)

/-- A part of a line: it is not empty, and it is closed if it ends the line. -/
structure Chunk (e : LineEnding) (text : List Char) (items : List Item) : Prop where
  ne_nil : text ≠ []
  opened : Open e text items
  closed : Literal.endsLine text = true → Closed e text items

variable {e : LineEnding} {a b : List Char} {is js : List Item}

/-! ## Closed texts -/

theorem Closed.nil : Closed e [] [] := by
  intro rest js h
  simpa using h

theorem Closed.append (ha : Closed e a is) (hb : Closed e b js) : Closed e (a ++ b) (is ++ js) := by
  intro rest ks h
  rw [LineEnding.apply_append, List.append_assoc, List.append_assoc]
  exact ha _ _ (hb _ _ h)

theorem Closed.flatMap {γ : Type} {text : γ → List Char} {items : γ → List Item} {xs : List γ}
    (h : ∀ x ∈ xs, Closed e (text x) (items x)) : Closed e (xs.flatMap text) (xs.flatMap items) := by
  induction xs with
  | nil => exact Closed.nil
  | cons x xs ih =>
      rw [List.flatMap_cons, List.flatMap_cons]
      exact (h x (by simp)).append (ih fun y hy => h y (by simp [hy]))

theorem isBlank_of_mem_apply {blanks : List Char} (h : ∀ c ∈ blanks, Text.isBlank c = true) :
    ∀ c ∈ e.apply blanks, Text.isBlank c = true := by
  induction blanks with
  | nil => simp
  | cons c blanks ih =>
      have hrest := ih fun d hd => h d (by simp [hd])
      by_cases hc : c = '\n'
      · subst hc
        rw [LineEnding.apply_break]
        have hlead : ∀ d ∈ e.lead, Text.isBlank d = true :=
          List.all_eq_true.1 (by cases e <;> decide)
        intro d hd
        rcases List.mem_append.1 hd with hd | hd
        · exact hlead d hd
        · rcases List.mem_cons.1 hd with rfl | hd
          · decide
          · exact hrest d hd
      · rw [LineEnding.apply_cons_of_ne e blanks hc]
        exact List.forall_mem_cons.2 ⟨h c (by simp), hrest⟩

theorem Closed.blanks (h : ∀ c ∈ a, Text.isBlank c = true) : Closed e a [] := by
  intro rest js hrest
  exact spells_blanks (isBlank_of_mem_apply h) hrest

theorem Closed.blank {c : Char} (hc : Text.isBlank c = true) : Closed e [c] [] :=
  Closed.blanks (by simpa using hc)

theorem Closed.sign {c : Char} {item : Item} (h : sign? c = some item) : Closed e [c] [item] := by
  intro rest js hrest
  have hne : '\n' ∉ [c] := by
    rw [List.mem_singleton]
    rintro rfl
    cases h
  rw [LineEnding.apply_of_not_mem e hne]
  exact spells_sign h hrest

theorem Closed.literal (threshold : Option Nat) (value : String) :
    Closed e (Literal.write threshold value) [Literal.item threshold value] :=
  fun _ _ h => spells_literal e threshold value h

theorem Closed.list (threshold : Option Nat) (values : List String) :
    Closed e (Literal.writeList threshold values) [.strings values] :=
  fun _ _ h => spells_list e threshold values h

theorem Closed.comment {line : List Char} (hbreak : '\n' ∉ line)
    (hreturn : ∀ c ∈ line.getLast?, c ≠ '\r') :
    Closed e ('#' :: line ++ ['\n']) [.comment (String.ofList line)] := by
  intro rest js h
  have hline : '\n' ∉ '#' :: line := by simpa using hbreak
  have hlead : Text.dropTrailing (· == '\r') (line ++ e.lead) = line := by
    have hself : Text.dropTrailing (· == '\r') line = line :=
      dropTrailing_eq_self fun c hc => by simpa using hreturn c hc
    cases e with
    | lf => rw [LineEnding.lead, List.append_nil, hself]
    | crlf => rw [LineEnding.lead, dropTrailing_concat line (by decide), hself]
  have hlong : '\n' ∉ line ++ e.lead := by simpa [LineEnding.not_break_of_mem_lead] using hbreak
  have hspells := spells_comment hlong h
  rw [hlead] at hspells
  rw [LineEnding.apply_line e [] hline, LineEnding.apply_nil]
  simpa using hspells

/-! ## Chunks -/

theorem Closed.chunk (ha : Closed e a is) (hne : a ≠ []) : Chunk e a is :=
  ⟨hne, fun _ _ _ h => ha _ _ h, fun _ => ha⟩

theorem endsLine_append (hb : b ≠ []) : Literal.endsLine (a ++ b) = Literal.endsLine b := by
  rw [Literal.endsLine, Literal.endsLine, List.getLast?_append, Option.or_of_isSome]
  simpa using hb

theorem Chunk.word {w : List Char} (hw : IsWord w) (hne : w ≠ []) (hkey : isTextKey w = false) :
    Chunk e w [wordItem w] := by
  have hbreak : '\n' ∉ w := fun hmem => absurd (hw.1 '\n' hmem).1 (by decide)
  refine ⟨hne, fun rest js hstops hrest => ?_, fun hends => ?_⟩
  · rw [LineEnding.apply_of_not_mem e hbreak]
    exact spells_word hw hne hkey hstops hrest
  · rw [Literal.endsLine, beq_iff_eq] at hends
    exact absurd (List.mem_of_getLast? hends) hbreak

theorem stops_apply {c : Char} {cs rest : List Char}
    (hc : Text.isBlank c = true ∨ isDelimiter c = true) :
    Stops (e.apply (c :: cs) ++ rest) := by
  by_cases hbreak : c = '\n'
  · subst hbreak
    rw [LineEnding.apply_break]
    cases e <;> exact stops_cons (.inl (by decide))
  · rw [LineEnding.apply_cons_of_ne e cs hbreak]
    exact stops_cons hc

theorem Chunk.append_closed {c : Char} {cs : List Char} (ha : Chunk e a is)
    (hc : Text.isBlank c = true ∨ isDelimiter c = true) (hb : Closed e (c :: cs) js) :
    Closed e (a ++ c :: cs) (is ++ js) := by
  intro rest ks h
  rw [LineEnding.apply_append, List.append_assoc, List.append_assoc]
  exact ha.opened _ _ (stops_apply hc) (hb _ _ h)

theorem Chunk.gap_closed (ha : Chunk e a is) (hb : Closed e b js) :
    Closed e (a ++ gap a ++ b) (is ++ js) := by
  unfold gap
  split
  · next hends =>
      rw [List.append_nil]
      exact (ha.closed hends).append hb
  · rw [List.append_assoc, List.singleton_append]
    refine ha.append_closed (.inl (by decide)) ?_
    exact (Closed.blank (c := ' ') rfl).append hb

theorem Chunk.after_closed (ha : Closed e a is) (hb : Chunk e b js) : Chunk e (a ++ b) (is ++ js) := by
  refine ⟨by simp [hb.ne_nil], fun rest ks hstops h => ?_, fun hends => ?_⟩
  · rw [LineEnding.apply_append, List.append_assoc, List.append_assoc]
    exact ha _ _ (hb.opened _ _ hstops h)
  · rw [endsLine_append hb.ne_nil] at hends
    exact ha.append (hb.closed hends)

theorem Chunk.gap_chunk (ha : Chunk e a is) (hb : Chunk e b js) :
    Chunk e (a ++ gap a ++ b) (is ++ js) := by
  unfold gap
  split
  · next hends =>
      rw [List.append_nil]
      exact Chunk.after_closed (ha.closed hends) hb
  · rw [List.append_assoc, List.singleton_append]
    have hblank := Chunk.after_closed (Closed.blank (e := e) (c := ' ') rfl) hb
    refine ⟨by simp, fun rest ks hstops h => ?_, fun hends => ?_⟩
    · rw [LineEnding.apply_append, List.append_assoc, List.append_assoc]
      exact ha.opened _ _ (stops_apply (.inl (by decide))) (hblank.opened _ _ hstops h)
    · rw [endsLine_append (by simp)] at hends
      exact ha.append_closed (.inl (by decide)) (hblank.closed hends)

/-! ## Chunks in a row -/

/-- Texts, and what each of them spells as a chunk. -/
def Chunks (e : LineEnding) (texts : List (List Char)) (items : List (List Item)) : Prop :=
  List.Forall₂ (Chunk e) texts items

theorem Chunk.join {texts : List (List Char)} {items : List (List Item)} (ha : Chunk e a is)
    (h : Chunks e texts items) : Chunk e (join (a :: texts)) (is ++ items.flatten) := by
  rw [Layout.join, List.foldl_cons, List.isEmpty_nil, Bool.true_or, if_pos rfl, List.nil_append]
  -- The text put together so far is a chunk at every step of the fold.
  induction h generalizing a is with
  | nil => simpa using ha
  | @cons text is' texts items htext _ ih =>
      have hgap : (if a.isEmpty || Literal.endsLine a then a else a ++ [' ']) = a ++ gap a := by
        have hne : a.isEmpty = false := by simpa using ha.ne_nil
        rw [hne, Bool.false_or, gap]
        split <;> simp
      rw [List.foldl_cons, hgap, List.flatten_cons, ← List.append_assoc]
      exact ih (ha.gap_chunk htext)

theorem Chunk.commaJoin {texts : List (List Char)} {items : List (List Item)} (ha : Chunk e a is)
    (h : Chunks e texts items) :
    Chunk e (Literal.commaJoin (a :: texts)) ([Item.comma].intercalate (is :: items)) := by
  rw [Literal.commaJoin]
  induction h generalizing a is with
  | nil => simpa using ha
  | @cons text is' texts items htext _ ih =>
      have hcomma : Chunk e (a ++ (if Literal.endsLine a then [','] else [',', ' ']) ++ text)
          (is ++ .comma :: is') := by
        have hsign : Closed e [','] [.comma] := Closed.sign rfl
        have hfirst : Closed e (a ++ if Literal.endsLine a then [','] else [',', ' '])
            (is ++ [.comma]) := by
          split
          · exact ha.append_closed (.inr (by decide)) hsign
          · exact ha.append_closed (.inr (by decide))
              (hsign.append (Closed.blank (c := ' ') rfl))
        have := Chunk.after_closed hfirst htext
        simpa using this
      have hrest := ih hcomma
      rw [List.foldl_cons]
      cases items with
      | nil => simpa using hrest
      | cons ks items =>
          simpa [List.intercalate_cons_cons] using hrest

theorem Chunk.lines {texts : List (List Char)} {items : List (List Item)} {indent : List Char}
    (hindent : ∀ c ∈ indent, Text.isBlank c = true) (ha : Chunk e a is)
    (h : Chunks e texts items) :
    Chunk e ([',', '\n'].intercalate ((a :: texts).map (indent ++ ·)))
      ([Item.comma].intercalate (is :: items)) := by
  induction h generalizing a is with
  | nil => simpa using Chunk.after_closed (Closed.blanks hindent) ha
  | @cons text is' texts items htext _ ih =>
      have hline := Chunk.after_closed (Closed.blanks hindent) ha
      have hbreak : Closed e [',', '\n'] [.comma] :=
        (Closed.sign rfl).append (Closed.blank rfl)
      have hfirst := Chunk.append_closed hline (.inr (by decide)) hbreak
      have := Chunk.after_closed hfirst (ih htext)
      simpa [List.intercalate_cons_cons] using this

end MailFilter.Layout
