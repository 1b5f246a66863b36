import MailFilter.Proofs.Layout.Items
import MailFilter.Proofs.Lexeme.Characters
import MailFilter.Proofs.Script.Leaves

/-!
# The characters of a layout

A layout writes the texts of a script, its indentation, and characters of ASCII.
-/

namespace MailFilter

open Layout

variable {α : Type} {Q : Char → Prop} {o : LayoutOptions}

section Parts

variable (hascii : ∀ c : Char, c.toNat < 0x80 → Q c)

include hascii

theorem forall_of_ascii {cs : List Char} (h : cs.all (·.toNat < 0x80) = true) : ∀ c ∈ cs, Q c :=
  fun c hc => hascii c (of_decide_eq_true (List.all_eq_true.1 h c hc))

theorem forall_number (value : Int) (unit : NumberUnit) :
    ∀ c ∈ (toString value ++ unit.text).toList, Q c := by
  have hdigits (n : Nat) : ∀ c ∈ (Nat.repr n).toList, Q c := by
    intro c hc
    rw [Nat.repr, String.toList_ofList] at hc
    have hdigit := Reading.isDigit_of_mem_toDigits hc
    rw [Char.isDigit_iff_toNat] at hdigit
    exact hascii c (Nat.lt_of_le_of_lt hdigit.2 (by decide))
  rw [String.toList_append]
  refine List.forall_mem_append.mpr ⟨?_, ?_⟩
  · cases value with
    | ofNat n => exact hdigits n
    | negSucc n =>
        change ∀ c ∈ ("-" ++ Nat.repr (n + 1)).toList, Q c
        rw [String.toList_append]
        exact List.forall_mem_append.mpr ⟨forall_of_ascii hascii (by decide), hdigits (n + 1)⟩
  · cases unit <;> exact forall_of_ascii hascii (by decide)

/-! ## Literals -/

namespace Literal

theorem forall_quoted {cs : List Char} (h : ∀ c ∈ cs, Q c) : ∀ c ∈ quoted cs, Q c := by
  have hquote : ∀ c ∈ ['"'], Q c := forall_of_ascii hascii (by decide)
  refine List.forall_mem_append.mpr ⟨List.forall_mem_cons.mpr ⟨hquote _ (List.mem_singleton_self _),
    List.forall_mem_flatMap.mpr fun c hc => ?_⟩, hquote⟩
  unfold escape
  split
  · exact List.forall_mem_cons.mpr ⟨hascii _ (by decide), List.forall_mem_singleton.mpr (h c hc)⟩
  · exact List.forall_mem_singleton.mpr (h c hc)

theorem forall_stuff {line : List Char} (h : ∀ c ∈ line, Q c) : ∀ c ∈ stuff line, Q c := by
  unfold stuff
  split
  · exact List.forall_mem_cons.mpr ⟨hascii _ (by decide), h⟩
  · exact h

theorem forall_multiline {cs : List Char} (h : ∀ c ∈ cs, Q c) : ∀ c ∈ multiline cs, Q c := by
  have hlines : ∀ line ∈ (Text.lines cs).map stuff, ∀ c ∈ line ++ ['\n'], Q c := by
    refine List.forall_mem_map.mpr fun line hmem => List.forall_mem_append.mpr ⟨?_, ?_⟩
    · exact forall_stuff hascii fun c hc => h c (Text.subset_of_mem_lines hmem hc)
    · exact forall_of_ascii hascii (by decide)
  unfold multiline Text.unlines
  simp only [List.forall_mem_append]
  exact ⟨⟨forall_of_ascii hascii (by decide), List.forall_mem_flatMap.mpr hlines⟩,
    forall_of_ascii hascii (by decide)⟩

theorem forall_write (threshold : Option Nat) {value : String} (h : Over Q value) :
    ∀ c ∈ write threshold value, Q c := by
  unfold write
  dsimp only
  split
  · exact forall_quoted hascii h
  split
  · exact forall_multiline hascii h
  · exact forall_quoted hascii h

theorem forall_commaJoin {items : List (List Char)} (h : ∀ item ∈ items, ∀ c ∈ item, Q c) :
    ∀ c ∈ commaJoin items, Q c := by
  cases items with
  | nil => exact List.forall_mem_nil _
  | cons item items =>
      obtain ⟨hitem, hitems⟩ := List.forall_mem_cons.mp h
      rw [commaJoin]
      clear h
      induction items generalizing item with
      | nil => exact hitem
      | cons next items ih =>
          obtain ⟨hnext, hitems⟩ := List.forall_mem_cons.mp hitems
          refine ih _ (List.forall_mem_append.mpr ⟨List.forall_mem_append.mpr ⟨hitem, ?_⟩, hnext⟩) hitems
          split <;> exact forall_of_ascii hascii (by decide)

theorem forall_writeList (threshold : Option Nat) {values : List String}
    (h : ∀ value ∈ values, Over Q value) : ∀ c ∈ writeList threshold values, Q c := by
  refine List.forall_mem_append.mpr ⟨List.forall_mem_cons.mpr ⟨hascii _ (by decide),
    forall_commaJoin hascii ?_⟩, forall_of_ascii hascii (by decide)⟩
  exact List.forall_mem_map.mpr fun value hvalue => forall_write hascii threshold (h value hvalue)

end Literal

theorem forall_apply (e : LineEnding) {cs : List Char} (h : ∀ c ∈ cs, Q c) : ∀ c ∈ e.apply cs, Q c := by
  cases e with
  | lf => exact h
  | crlf =>
      refine List.forall_mem_flatMap.mpr fun c hc => ?_
      split
      · exact forall_of_ascii hascii (by decide)
      · exact List.forall_mem_singleton.mpr (h c hc)

namespace Layout

theorem forall_join {parts : List (List Char)} (h : ∀ part ∈ parts, ∀ c ∈ part, Q c) :
    ∀ c ∈ join parts, Q c := by
  have hfold (text : List Char) (htext : ∀ c ∈ text, Q c) : ∀ c ∈ parts.foldl (fun text part =>
      (if text.isEmpty || Literal.endsLine text then text else text ++ [' ']) ++ part) text, Q c := by
    induction parts generalizing text with
    | nil => exact htext
    | cons part parts ih =>
        obtain ⟨hpart, hparts⟩ := List.forall_mem_cons.mp h
        refine ih hparts _ (List.forall_mem_append.mpr ⟨?_, hpart⟩)
        split
        · exact htext
        · exact List.forall_mem_append.mpr ⟨htext, forall_of_ascii hascii (by decide)⟩
  exact hfold [] (List.forall_mem_nil _)

theorem forall_gap (text : List Char) : ∀ c ∈ gap text, Q c := by
  unfold gap
  split <;> exact forall_of_ascii hascii (by decide)

end Layout

end Parts

namespace Layout

/-! ## Trees -/

/-- The characters that a layout has of its own have a property. -/
structure Supplies (Q : Char → Prop) (o : LayoutOptions) : Prop where
  ascii : ∀ c : Char, c.toNat < 0x80 → Q c
  indent : ∀ level, ∀ c ∈ indentation o level, Q c

mutual

theorem forall_argument (hQ : Supplies Q o) (level : Nat) : ∀ (a : Argument α),
    (∀ x ∈ a.leaves, Over Q x) → ∀ c ∈ argument o level a, Q c
  | .string value _ _, h => Literal.forall_write hQ.ascii o.threshold (h value (.head _))
  | .strings _ _, h => Literal.forall_writeList hQ.ascii o.threshold h
  | .number value unit _, _ => forall_number hQ.ascii value unit
  | .tag name _, h => h name (.head _)
  | .test t, h => forall_test hQ level t h
  | .foreign shown, h => h shown (.head _)

theorem forall_test (hQ : Supplies Q o) (level : Nat) : ∀ (t : Test α),
    (∀ x ∈ t.leaves, Over Q x) → ∀ c ∈ test o level t, Q c
  | .mk name as ts mark, h => by
      obtain ⟨hname, h⟩ := List.forall_mem_cons.mp h
      obtain ⟨has, hts⟩ := List.forall_mem_append.mp h
      have hhead : ∀ c ∈ join (name.toList :: arguments o level as), Q c :=
        forall_join hQ.ascii (List.forall_mem_cons.mpr ⟨hname, forall_arguments hQ level as has⟩)
      have hgap := forall_gap hQ.ascii (join (name.toList :: arguments o level as))
      have hclose : ∀ c ∈ [')'], Q c := forall_of_ascii hQ.ascii (by decide)
      have hinner (level : Nat) := forall_arguments hQ level ts hts
      match ts with
      | [] => exact hhead
      | [t] =>
          rw [test_single]
          dsimp only
          split
          · exact forall_join hQ.ascii (List.forall_mem_cons.mpr
              ⟨hhead, List.forall_mem_singleton.mpr (hinner level _ (.head _))⟩)
          · simp only [List.forall_mem_append]
            have hsingle := List.forall_mem_cons.mpr
              ⟨hQ.ascii '(' (by decide), hinner (level + 1) _ (.head _)⟩
            exact ⟨⟨⟨hhead, hgap⟩, hsingle⟩, hclose⟩
      | t :: u :: ts =>
          rw [test_many]
          dsimp only
          split
          · have hbetween : ∀ c ∈ [',', '\n'], Q c := forall_of_ascii hQ.ascii (by decide)
            have hlines := Lexeme.forall_intercalate hbetween (List.forall_mem_map.mpr fun line hline =>
              List.forall_mem_append.mpr ⟨hQ.indent (level + 1), hinner (level + 1) line hline⟩)
            have hlast := List.forall_mem_cons.mpr ⟨hQ.ascii '\n' (by decide), hQ.indent level⟩
            simp only [List.forall_mem_append]
            exact ⟨⟨⟨⟨⟨hhead, hgap⟩, forall_of_ascii hQ.ascii (by decide)⟩, hlines⟩, hlast⟩, hclose⟩
          · have hjoined := List.forall_mem_cons.mpr
              ⟨hQ.ascii '(' (by decide), Literal.forall_commaJoin hQ.ascii (hinner (level + 1))⟩
            simp only [List.forall_mem_append]
            exact ⟨⟨⟨hhead, hgap⟩, hjoined⟩, hclose⟩

theorem forall_arguments (hQ : Supplies Q o) (level : Nat) : ∀ (as : List (Argument α)),
    (∀ x ∈ Argument.leavesAll as, Over Q x) → ∀ part ∈ arguments o level as, ∀ c ∈ part, Q c
  | [], _ => List.forall_mem_nil _
  | a :: as, h =>
      have h := List.forall_mem_append.mp h
      List.forall_mem_cons.mpr ⟨forall_argument hQ level a h.1, forall_arguments hQ level as h.2⟩

end

theorem forall_comments (hQ : Supplies Q o) (level : Nat) {cs : List Comment}
    (h : ∀ x ∈ cs.map (·.text), Over Q x) : ∀ c ∈ comments o level cs, Q c := by
  unfold comments
  split
  · refine List.forall_mem_flatMap.mpr fun comment hcomment => List.forall_mem_flatMap.mpr fun line hline => ?_
    obtain ⟨line, hmem, rfl⟩ := List.mem_map.1 hline
    have hline : ∀ c ∈ Text.trimRight line, Q c := fun c hc => h _ (List.mem_map_of_mem hcomment) c
      (Text.subset_of_mem_lines hmem (Text.dropTrailing_subset _ _ hc))
    simp only [List.forall_mem_append, List.forall_mem_cons]
    exact ⟨⟨hQ.indent level, hQ.ascii '#' (by decide), hline⟩, hQ.ascii '\n' (by decide),
      List.forall_mem_nil _⟩
  · exact List.forall_mem_nil _

theorem forall_head (hQ : Supplies Q o) (level : Nat) {h : Head α}
    (hleaves : ∀ x ∈ h.leaves, Over Q x) : ∀ c ∈ head o level h, Q c := by
  obtain ⟨hname, hleaves⟩ := List.forall_mem_cons.mp hleaves
  obtain ⟨harguments, -⟩ := List.forall_mem_append.mp hleaves
  exact forall_join hQ.ascii (List.forall_mem_cons.mpr
    ⟨hname, forall_arguments hQ level _ harguments⟩)

theorem forall_headLine (hQ : Supplies Q o) (level : Nat) {h : Head α}
    (hleaves : ∀ x ∈ h.leaves, Over Q x) :
    ∀ c ∈ comments o level h.comments ++ indentation o level ++ head o level h, Q c := by
  have hcomments : ∀ x ∈ h.comments.map (·.text), Over Q x := fun x hx =>
    hleaves x (.tail _ (List.mem_append_right _ hx))
  exact List.forall_mem_append.mpr ⟨List.forall_mem_append.mpr
    ⟨forall_comments hQ level hcomments, hQ.indent level⟩, forall_head hQ level hleaves⟩

mutual

theorem forall_command (hQ : Supplies Q o) (level : Nat) : ∀ (c : Command α),
    (∀ x ∈ c.leaves, Over Q x) → ∀ d ∈ command o level c, Q d
  | .simple h, hleaves =>
      List.forall_mem_append.mpr
        ⟨forall_headLine hQ level hleaves, forall_of_ascii hQ.ascii (by decide)⟩
  | .control h cs trailing _, hleaves => by
      obtain ⟨hhead, hleaves⟩ := List.forall_mem_append.mp hleaves
      obtain ⟨hcs, htrailing⟩ := List.forall_mem_append.mp hleaves
      have hline := forall_headLine hQ level hhead
      have hgap := forall_gap hQ.ascii (head o level h)
      have hbody := forall_commands hQ (level + 1) cs hcs
      have hcomments := forall_comments hQ (level + 1) htrailing
      rw [command]
      simp only [List.forall_mem_append] at hline ⊢
      exact ⟨⟨⟨⟨⟨⟨hline, hgap⟩, forall_of_ascii hQ.ascii (by decide)⟩, hbody⟩, hcomments⟩,
        hQ.indent level⟩, forall_of_ascii hQ.ascii (by decide)⟩

theorem forall_commands (hQ : Supplies Q o) (level : Nat) : ∀ (cs : List (Command α)),
    (∀ x ∈ Command.leavesAll cs, Over Q x) → ∀ d ∈ commands o level cs, Q d
  | [], _ => List.forall_mem_nil _
  | c :: cs, h =>
      have h := List.forall_mem_append.mp h
      List.forall_mem_append.mpr ⟨forall_command hQ level c h.1, forall_commands hQ level cs h.2⟩

end

theorem forall_require (hQ : Supplies Q o) {capabilities : List String}
    (hcapabilities : ∀ x ∈ capabilities, Over Q x) (others : Bool) {c : Command α}
    (h : ∀ x ∈ c.leaves, Over Q x) : ∀ d ∈ require o capabilities others c, Q d := by
  have hcomments : ∀ x ∈ c.head.comments.map (·.text), Over Q x := by
    intro x hx
    have hhead : x ∈ c.head.leaves := .tail _ (List.mem_append_right _ hx)
    cases c with
    | simple head => exact h x hhead
    | control head commands trailing opening => exact h x (List.mem_append_left _ hhead)
  have hlist := Literal.forall_writeList hQ.ascii o.threshold hcapabilities
  have hblank : ∀ d ∈ if o.blankLine && others then ['\n'] else [], Q d := by
    split <;> exact forall_of_ascii hQ.ascii (by decide)
  unfold require
  simp only [List.forall_mem_append]
  exact ⟨⟨⟨⟨forall_comments hQ 0 hcomments, forall_of_ascii hQ.ascii (by decide)⟩, hlist⟩,
    forall_of_ascii hQ.ascii (by decide)⟩, hblank⟩

theorem forall_script (hQ : Supplies Q o) {s : Script α} (h : ∀ x ∈ s.leaves, Over Q x) :
    ∀ c ∈ script o s, Q c := by
  obtain ⟨hcapabilities, h⟩ := List.forall_mem_append.mp h
  obtain ⟨hcommands, htrailing⟩ := List.forall_mem_append.mp h
  have hcommand : ∀ c ∈ s.commands, ∀ x ∈ c.leaves, Over Q x := by
    intro c hc x hx
    refine hcommands x ?_
    obtain ⟨before, after, hsplit⟩ := List.append_of_mem hc
    rw [show s.block.commands = before ++ c :: after from hsplit, Command.leavesAll_append]
    exact List.mem_append_right _ (List.mem_append_left _ hx)
  have hlineup : ∀ entry ∈ s.lineup, entry.2 ∈ s.commands := by
    unfold Script.lineup
    split
    · exact List.forall_mem_nil _
    · next c cs hcs =>
        rw [hcs]
        refine List.forall_mem_cons.mpr ⟨.head _, List.forall_mem_map.mpr fun d hd => .tail _ hd⟩
  refine List.forall_mem_append.mpr ⟨List.forall_mem_flatMap.mpr fun entry hentry => ?_,
    forall_comments hQ 0 htrailing⟩
  have hleaves := hcommand entry.2 (hlineup entry hentry)
  dsimp only
  split
  · exact forall_require hQ hcapabilities _ hleaves
  · exact forall_command hQ 0 entry.2 hleaves

end Layout

/-- The characters of a canonical text: those of ASCII, of the indentation, and of the script. -/
theorem Script.over_text (hQ : Supplies Q o) {s : Script α} (h : ∀ x ∈ s.leaves, Over Q x) :
    Over Q (s.text o) :=
  over_ofList.mpr (forall_apply hQ.ascii o.ending (forall_script hQ h))

end MailFilter
