import MailFilter.Proofs.Layout.Items
import MailFilter.Proofs.Script.Outline

/-!
# The canonical text of an outline

The canonical text shows neither places nor the forms of strings, and what it does with comments it
does once: the text of a tree is the text of its outline with the comments that the layout writes.
-/

namespace MailFilter.Layout

variable {α : Type} (o : LayoutOptions)

/-! ## Comments -/

theorem lines_of_not_mem {cs : List Char} (h : '\n' ∉ cs) : Text.lines cs = [cs] := by
  induction cs with
  | nil => rfl
  | cons c cs ih =>
      simp only [List.mem_cons, not_or] at h
      rw [Text.lines, if_neg (by simpa using Ne.symm h.1), ih h.2]

theorem commentLines_commentLines (texts : List String) :
    commentLines (commentLines texts) = commentLines texts := by
  have hline : ∀ text ∈ commentLines texts, (Text.lines text.toList).map
      (fun line => String.ofList (Text.trimRight line)) = [text] := by
    intro text htext
    obtain ⟨source, -, htext⟩ := List.mem_flatMap.1 htext
    obtain ⟨line, hline, rfl⟩ := List.mem_map.1 htext
    have hbreak : '\n' ∉ Text.trimRight line :=
      fun hmem => Text.not_mem_of_mem_lines hline (Text.dropTrailing_subset Text.isBlank line hmem)
    rw [String.toList_ofList, lines_of_not_mem hbreak, List.map_singleton, Text.trimRight_trimRight]
  rw [commentLines, List.flatMap_congr hline, List.flatMap_singleton']

theorem commentTexts_commentTexts : commentTexts o ∘ commentTexts o = commentTexts o := by
  funext texts
  rw [Function.comp_apply]
  unfold commentTexts
  split
  · exact commentLines_commentLines texts
  · rfl

theorem comments_eq (level : Nat) (cs : List Comment) :
    comments o level cs =
      (commentTexts o (cs.map (·.text))).flatMap fun text =>
        indentation o level ++ '#' :: text.toList ++ ['\n'] := by
  unfold comments commentTexts
  split
  · simp only [commentLines, List.flatMap_map, List.flatMap_assoc, Text.unlines, String.toList_ofList]
  · rfl

theorem comments_outlineAll (level : Nat) (cs : List Comment) :
    comments o level (Comment.outlineAll (commentTexts o) cs) = comments o level cs := by
  have htexts : (Comment.outlineAll (commentTexts o) cs).map (·.text) =
      commentTexts o (cs.map (·.text)) := by
    rw [Comment.outlineAll, List.map_map]
    exact List.map_id _
  rw [comments_eq, comments_eq, htexts]
  exact congrArg (List.flatMap _) (congrFun (commentTexts_commentTexts o) _)

/-! ## Trees -/

mutual

theorem argument_outline : ∀ (a : Argument α) level, argument o level a.outline = argument o level a
  | .string .., _ | .strings .., _ | .number .., _ | .tag .., _ | .foreign .., _ => rfl
  | .test t, level => test_outline t level

theorem test_outline : ∀ (t : Test α) level, test o level t.outline = test o level t
  | .mk name as ts mark, level => by
      have has := arguments_outlineAll as level
      have hts := fun level => arguments_outlineAll ts level
      match ts with
      | [] => rw [Test.outline, Argument.outlineAll, test_nil, test_nil, has]
      | [t] =>
          have ht : ∀ level, argument o level t.outline = argument o level t := by
            intro level
            have := hts level
            simp only [Argument.outlineAll, arguments, List.cons.injEq, and_true] at this
            exact this
          rw [Test.outline, Argument.outlineAll, Argument.outlineAll, test_single, test_single, has,
            ht level, ht (level + 1)]
      | t :: u :: ts =>
          have hinner := hts (level + 1)
          rw [Argument.outlineAll, Argument.outlineAll] at hinner
          rw [Test.outline, Argument.outlineAll, Argument.outlineAll, test_many, test_many, has,
            hinner]

theorem arguments_outlineAll : ∀ (as : List (Argument α)) level,
    arguments o level (Argument.outlineAll as) = arguments o level as
  | [], _ => rfl
  | a :: as, level => by
      rw [Argument.outlineAll, arguments, arguments, argument_outline a level,
        arguments_outlineAll as level]

end

theorem head_outline (f : List String → List String) (h : Head α) (level : Nat) :
    head o level (h.outline f) = head o level h := by
  rw [head, head, Head.outline, arguments_outlineAll]

mutual

theorem command_outline : ∀ (c : Command α) level,
    command o level (c.outline (commentTexts o)) = command o level c
  | .simple h, level => by
      rw [Command.outline, command, command, head_outline, Head.outline, comments_outlineAll]
  | .control h cs trailing opening, level => by
      rw [Command.outline, command, command, head_outline, Head.outline, comments_outlineAll,
        comments_outlineAll, commands_outlineAll cs]

theorem commands_outlineAll : ∀ (cs : List (Command α)) level,
    commands o level (Command.outlineAll (commentTexts o) cs) = commands o level cs
  | [], _ => rfl
  | c :: cs, level => by
      rw [Command.outlineAll, commands, commands, command_outline c level,
        commands_outlineAll cs level]

end

theorem isBareRequire_outline (f : List String → List String) (h : Head α) :
    (h.outline f).isBareRequire = h.isBareRequire := by
  rw [Head.isBareRequire, Head.isBareRequire, Head.outline, Head.keyword?, Head.keyword?]
  cases h.arguments <;> rfl

theorem script_outline (s : Script α) : script o (s.outline (commentTexts o)) = script o s := by
  have htrailing := comments_outlineAll o 0 s.block.trailing
  cases hcs : s.commands with
  | nil =>
      have houtline : (s.outline (commentTexts o)).commands = [] := by
        rw [Script.outline, hcs]
        rfl
      rw [script_of_nil o hcs, script_of_nil o houtline]
      exact htrailing
  | cons c cs =>
      have houtline : (s.outline (commentTexts o)).commands =
          c.outline (commentTexts o) :: Command.outlineAll (commentTexts o) cs := by
        rw [Script.outline, hcs]
        rfl
      have hhead := Command.head_outline (commentTexts o) c
      have hlength : (Command.outlineAll (commentTexts o) cs).length = cs.length := by
        rw [Command.outlineAll_eq_map, List.length_map]
      have hrequire : require o s.capabilities (decide (0 < cs.length)) (c.outline (commentTexts o)) =
          require o s.capabilities (decide (0 < cs.length)) c := by
        rw [require, require, hhead, Head.outline, comments_outlineAll]
      rw [script_of_cons o hcs, script_of_cons o houtline, hhead, isBareRequire_outline, hlength,
        command_outline o c, commands_outlineAll o cs, ← htrailing]
      exact congrArg (fun text => (if c.head.isBareRequire = true then text else _) ++ _ ++ _) hrequire

/-- Scripts whose outlines agree after the layout of comments have the same canonical text. -/
theorem text_congr {β : Type} {s : Script α} {t : Script β}
    (h : s.outline (commentTexts o) = t.outline (commentTexts o)) : s.text o = t.text o := by
  rw [Script.text, Script.text, ← script_outline o s, ← script_outline o t, h]

end MailFilter.Layout
