import MailFilter.Proofs.Lexeme.Literals
import MailFilter.Proofs.Text.Charset
import MailFilter.Statement

/-!
# Literals in context

A literal stands for the string it was written for, or for the list, at the front of any text: it is the
first token, and what follows it is read as it is read on its own.  Between quotes every string comes
back; a multi-line string does without the carriage returns at the ends of its lines.
-/

namespace MailFilter

/-! ## Tokens from a place on -/

namespace Tokens

/-- The tokens of a text that stands at a place. -/
def ofCharsAt (width : Char → Nat) (p : Pos) (cs : List Char) : Tokens :=
  let pieces := Lexeme.split cs
  let tokens := place width p pieces.lexemes
  let last := placeAfter width p pieces.lexemes
  match pieces.broken with
  | none => ⟨tokens ++ [⟨.endOfInput, last⟩], none⟩
  | some b => ⟨tokens, some (.at (.lexeme b.fault) (last.after width (b.lead.getD [])))⟩

theorem ofChars_eq (width : Char → Nat) (cs : List Char) :
    ofChars width cs = ofCharsAt width .start cs := rfl

def cons (t : Token) (ts : Tokens) : Tokens := { ts with tokens := t :: ts.tokens }

theorem ofCharsAt_of_next (width : Char → Nat) (p : Pos) {c : Char} {cs text rest : List Char}
    {item : Item} (h : Lexeme.next c cs = .ok ⟨some item, text, rest⟩) :
    ofCharsAt width p (c :: cs) = cons ⟨item, p⟩ (ofCharsAt width (p.after width text) rest) := by
  rw [ofCharsAt, Lexeme.split_of_next h, ofCharsAt]
  dsimp only [place, placeAfter, List.foldl_cons]
  cases (Lexeme.split rest).broken <;> rfl

end Tokens

theorem Statement.firstValue_cons {t : Token} {v : Value} (hv : t.item.value? = some v)
    (hend : t.item.endsStatement = false) (ts : Tokens) :
    Statement.firstValue (ts.cons t) = .ok (some v) := by
  have htake : (ts.cons t).tokens.takeWhile (!·.item.endsStatement) =
      t :: ts.tokens.takeWhile (!·.item.endsStatement) :=
    List.takeWhile_cons_of_pos (by simp [hend])
  have hfound : (t :: ts.tokens.takeWhile (!·.item.endsStatement)).filterMap (·.item.value?) =
      v :: (ts.tokens.takeWhile (!·.item.endsStatement)).filterMap (·.item.value?) :=
    List.filterMap_cons_some hv
  rw [Statement.firstValue, htake, hfound]
  rfl

/-! ## Carriage returns at the ends of lines -/

namespace Lexeme

theorem chomp_stuff (line : List Char) : chomp (Literal.stuff line) = Literal.stuff (chomp line) := by
  cases line with
  | nil => rfl
  | cons c cs =>
      by_cases hdot : c = '.'
      · subst hdot
        -- A dot that is doubled leaves the end of its line as it is.
        cases cs with
        | nil => rfl
        | cons d ds =>
            simp only [Literal.stuff, chomp, List.getLast?_cons_cons, List.dropLast_cons_cons]
            split <;> rfl
      · have hplain : ∀ ds, Literal.stuff (c :: ds) = c :: ds := fun ds => by
          unfold Literal.stuff
          split <;> simp_all
        rw [hplain]
        cases cs with
        | nil =>
            unfold chomp
            split
            · rfl
            · exact (hplain []).symm
        | cons d ds =>
            simp only [chomp, List.getLast?_cons_cons, List.dropLast_cons_cons]
            split <;> exact (hplain _).symm

theorem multilineLines_chomp {ls : List (List Char)} (rest : List Char) (hbreak : ∀ l ∈ ls, '\n' ∉ l) :
    ∃ text, multilineLines (Text.unlines (ls.map Literal.stuff) ++ ['.', '\n'] ++ rest) =
      some ⟨ls.map chomp, text, rest⟩ := by
  induction ls with
  | nil =>
      refine ⟨['.', '\n'], ?_⟩
      exact (multilineLines_line rest (show '\n' ∉ ['.'] by decide)).trans (if_pos (by decide))
  | cons l ls ih =>
      obtain ⟨hl, hls⟩ := List.forall_mem_cons.1 hbreak
      obtain ⟨text, ih⟩ := ih hls
      have htext : Text.unlines ((l :: ls).map Literal.stuff) ++ ['.', '\n'] ++ rest =
          Literal.stuff l ++ '\n' :: (Text.unlines (ls.map Literal.stuff) ++ ['.', '\n'] ++ rest) := by
        simp [Text.unlines]
      refine ⟨Literal.stuff l ++ '\n' :: text, ?_⟩
      rw [htext, multilineLines_line _ (not_mem_stuff (by decide) hl), chomp_stuff,
        if_neg (by simpa using stuff_ne_dot (chomp l)), ih, unstuff_stuff]
      rfl

theorem next_multiline (value rest : List Char) :
    ∃ c cs text, Literal.multiline value ++ rest = c :: cs ∧ next c cs =
      .ok ⟨some (.multiline (String.ofList (['\n'].intercalate ((Text.lines value).map chomp)))),
        text, rest⟩ := by
  obtain ⟨text, hlines⟩ := multilineLines_chomp rest
    fun l (hl : l ∈ Text.lines value) => Text.not_mem_of_mem_lines hl
  have hstops : Stops (multilineBody value ++ rest) := stops_cons (.inl (by decide))
  have hread : multilineString ['t', 'e', 'x', 't', ':'] (multilineBody value ++ rest) =
      .ok ⟨String.ofList (['\n'].intercalate ((Text.lines value).map chomp)),
        ['t', 'e', 'x', 't', ':', '\n'] ++ text, rest⟩ := by
    rw [multilineBody, List.cons_append, multilineString,
      show multilineHeader ('\n' :: _) = .ok ⟨(), ['\n'], _⟩ from rfl]
    simp only [hlines]
    rfl
  refine ⟨'t', ['e', 'x', 't', ':'] ++ (multilineBody value ++ rest),
    ['t', 'e', 'x', 't', ':', '\n'] ++ text, ?_, ?_⟩
  · rw [multiline_eq, List.append_assoc, List.cons_append]
  · rw [next_word (by decide) hstops, wordLexeme, if_pos (by decide), hread]
    rfl

theorem next_quoted (e : LineEnding) (value : List Char) :
    ∃ c cs text, e.apply (Literal.quoted value) = c :: cs ∧
      next c cs = .ok ⟨some (.quoted (String.ofList value)), text, []⟩ := by
  obtain ⟨text, hread⟩ := quotedString_escape e value []
  rw [List.append_nil] at hread
  refine ⟨'"', e.apply (value.flatMap Literal.escape ++ ['"']), text, ?_, ?_⟩
  · rw [Literal.quoted, List.cons_append, LineEnding.apply_cons_of_ne e _ (by decide)]
  exact next_of_isNext (.quoted hread)

theorem length_chomp_le (line : List Char) : (chomp line).length ≤ line.length := by
  unfold chomp
  split
  · exact List.length_dropLast ▸ Nat.sub_le _ _
  · exact Nat.le_refl _

theorem chomp_eq_self {line : List Char} : chomp line = line ↔ line.getLast? ≠ some '\r' := by
  unfold chomp
  by_cases hlast : line.getLast? = some '\r'
  · have hpos := List.length_pos_of_mem (List.mem_of_getLast? hlast)
    rw [if_pos (by simpa using hlast)]
    refine iff_of_false (fun heq => ?_) (not_not_intro hlast)
    have hlength := congrArg List.length heq
    rw [List.length_dropLast] at hlength
    omega
  · rw [if_neg (by simpa using hlast)]
    exact iff_of_true rfl hlast

theorem unlines_map_chomp {ls : List (List Char)}
    (h : Text.unlines (ls.map chomp) = Text.unlines ls) : ∀ l ∈ ls, chomp l = l := by
  have hle : ∀ ls : List (List Char),
      (Text.unlines (ls.map chomp)).length ≤ (Text.unlines ls).length := by
    intro ls
    induction ls with
    | nil => exact Nat.le_refl _
    | cons l ls ih =>
        have := length_chomp_le l
        simp only [Text.unlines, List.map_cons, List.flatMap_cons, List.length_append] at ih ⊢
        omega
  induction ls with
  | nil => exact fun _ hl => absurd hl List.not_mem_nil
  | cons l ls ih =>
      have hrest := hle ls
      have hlength := congrArg List.length h
      simp only [Text.unlines, List.map_cons, List.flatMap_cons, List.length_append] at h hrest hlength
      have hfirst := List.append_inj h (by have := length_chomp_le l; simp; omega)
      exact List.forall_mem_cons.2 ⟨List.append_cancel_right hfirst.1, ih hfirst.2⟩

theorem intercalate_chomp_eq (value : List Char) :
    ['\n'].intercalate ((Text.lines value).map chomp) = value ↔
      ∀ l ∈ Text.lines value, l.getLast? ≠ some '\r' := by
  simp only [← chomp_eq_self]
  constructor
  · intro heq
    refine unlines_map_chomp ?_
    rw [Text.unlines_lines, ← Text.intercalate_append_break (by simpa using Text.lines_ne_nil value),
      heq]
  · intro hsame
    rw [List.map_congr_left hsame, List.map_id', Text.intercalate_lines]

end Lexeme

/-! ## The main result -/

open Lexeme Statement in
/-- A literal is read as what it was written for, with both line endings, and what follows it is read
from its end on.  By itself a quoted string is read as the string, and a multi-line string as the string
without a carriage return at the end of each line, which is the string itself where no line has one. -/
theorem literals_readBack (threshold : Option Nat) (e : LineEnding) (width : Char → Nat) (p : Pos)
    (rest : List Char) :
    (∀ value : String, Tokens.ofCharsAt width p (e.apply (Literal.write threshold value) ++ rest) =
      .cons ⟨if Literal.isMultiline threshold value then .multiline value else .quoted value, p⟩
        (Tokens.ofCharsAt width (p.after width (e.apply (Literal.write threshold value))) rest)) ∧
    (∀ values : List String,
      Tokens.ofCharsAt width p (e.apply (Literal.writeList threshold values) ++ rest) =
        .cons ⟨.strings values, p⟩
          (Tokens.ofCharsAt width (p.after width (e.apply (Literal.writeList threshold values))) rest)) ∧
    (∀ value : List Char, inspect .first (.ofText (String.ofList (e.apply (Literal.quoted value)))) =
      .ok (.text (String.ofList value))) ∧
    (∀ value : List Char, inspect .first (.ofText (String.ofList (Literal.multiline value))) =
      .ok (.text (String.ofList (['\n'].intercalate ((Text.lines value).map chomp))))) ∧
    ∀ value : List Char, ['\n'].intercalate ((Text.lines value).map chomp) = value ↔
      ∀ l ∈ Text.lines value, l.getLast? ≠ some '\r' := by
  have hfirst : ∀ {cs : List Char} {c : Char} {cs' text rest : List Char} {item : Item} {v : Value},
      cs = c :: cs' → next c cs' = .ok ⟨some item, text, rest⟩ → item.value? = some v →
      item.endsStatement = false → inspect .first (.ofText (String.ofList cs)) = .ok v := by
    rintro _ c cs' text rest item v rfl hnext hv hend
    rw [Tokens.ofText, Text.ofName?_utf8]
    dsimp only
    rw [String.toList_ofList, Tokens.ofChars_eq, Tokens.ofCharsAt_of_next _ _ hnext, inspect,
      firstValue_cons hv hend]
    rfl
  refine ⟨fun value => ?_, fun values => ?_, fun value => ?_, fun value => ?_, intercalate_chomp_eq⟩
  · obtain ⟨c, cs, hcons, hnext⟩ := next_literal e threshold value rest
    rw [hcons]
    exact Tokens.ofCharsAt_of_next width p hnext
  · obtain ⟨c, cs, hcons, hnext⟩ := next_list e threshold values rest
    rw [hcons]
    exact Tokens.ofCharsAt_of_next width p hnext
  · obtain ⟨c, cs, text, hcons, hnext⟩ := next_quoted e value
    exact hfirst hcons hnext rfl rfl
  · obtain ⟨c, cs, text, hcons, hnext⟩ := next_multiline value []
    rw [List.append_nil] at hcons
    exact hfirst hcons hnext rfl rfl

end MailFilter
