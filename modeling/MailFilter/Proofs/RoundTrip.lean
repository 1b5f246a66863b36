import MailFilter.Proofs.Layout.Outline
import MailFilter.Proofs.Reading.Invariant

/-!
# Reading and writing scripts

What is read can be written, what is written is read back as what it was, and writing what was read
back changes nothing.
-/

namespace MailFilter

open Layout Reading

/-- Every script that is read is printable, and every printable script is read back from its
canonical text, whatever the layout, where the limit allows for its blocks and tests. -/
theorem readBack_alike :
    (∀ (source filename : String) (limit : Value) (s : Script),
      Script.ofText source filename ⟨.default, limit⟩ = .ok s → s.Printable) ∧
    ∀ {α : Type} (s : Script α) (o : LayoutOptions) (filename : String) (limit : Int),
      s.Printable → BlankIndent o → Command.heightAll s.commands ≤ limit →
      ∃ u, Script.ofText (s.text o) filename ⟨.default, .int limit⟩ = .ok u ∧ u.alike s = true := by
  constructor
  · intro source filename limit s h
    exact (printable_of_ofText h).1
  · intro α s o filename limit hs ho hheight
    obtain ⟨u, hu, houtline⟩ := ofText_of_printable hs ho filename (permits_of_le .default hheight)
    exact ⟨u, hu, Script.alike_of_outline houtline⟩

/-- A file action with a tag and a string of two lines, under its `require`. -/
def filing : Script Unit :=
  ⟨⟨[.simple ⟨"require", [], [], ()⟩,
      .simple ⟨"fileinto", [.tag ":copy" (), .string "a\nb" .quoted ()], [], ()⟩], [], .nowhere⟩,
    ["fileinto", "copy"], "", .nowhere⟩

theorem printable_filing : filing.Printable := by
  refine ⟨⟨⟨⟨isAtom_require, trivial⟩, ?_⟩, ⟨⟨?_, ⟨?_, trivial, trivial⟩⟩, ?_⟩, trivial⟩, ?_, ?_, ?_⟩
  · decide +kernel
  · exact ⟨by decide +kernel, fun _ => by decide +kernel⟩
  · exact ⟨by decide +kernel, by decide +kernel, by decide +kernel⟩
  · decide +kernel
  · rintro _ ⟨⟩ -
    rfl
  · decide
  · intro _
    decide +kernel

theorem blankIndent_default : BlankIndent .default := ⟨"    ", rfl, List.all_eq_true.1 (by decide)⟩

theorem readBack_alike_filing :
    (∃ s, Script.ofText "stop;" "f" .default = .ok s ∧ s.Printable) ∧
    ∃ u, Script.ofText (filing.text .default) "f" ⟨.default, .int 64⟩ = .ok u ∧
      u.alike filing = true := by
  constructor
  · obtain ⟨s, hs⟩ := exists_ok_of_isOk
      (show (Script.ofText "stop;" "f" .default).isOk = true by decide +kernel)
    exact ⟨s, hs, readBack_alike.1 _ _ _ _ hs⟩
  · exact readBack_alike.2 filing .default "f" 64 printable_filing blankIndent_default (by decide)

/-- The canonical text of a script that was read, read back, has itself as its canonical text.  Where
comments are written, what is read back carries the comments of the script at the same places, with
each of their lines as a comment of its own. -/
theorem text_idempotent {source filename : String} {limit : Value} {s : Script} {o : LayoutOptions}
    (ho : BlankIndent o) (h : Script.ofText source filename ⟨.default, limit⟩ = .ok s) :
    ∃ u, Script.ofText (s.text o) filename ⟨.default, limit⟩ = .ok u ∧ u.text o = s.text o ∧
      (o.comments = true → u.outline id = s.outline commentLines) := by
  obtain ⟨hprint, hdepth⟩ := printable_of_ofText h
  obtain ⟨u, hu, houtline⟩ := ofText_of_printable hprint ho filename hdepth
  refine ⟨u, hu, text_congr o ?_, fun hcomments => ?_⟩
  · have := congrArg (Script.outline (commentTexts o)) houtline
    rwa [Script.outline_outline, Script.outline_outline, commentTexts_commentTexts,
      Function.comp_id] at this
  · rw [houtline]
    unfold commentTexts
    simp only [hcomments, if_true]

theorem text_idempotent_comments :
    ∃ s u, Script.ofText "/* a \n b */ stop; # c" "f" .default = .ok s ∧
      Script.ofText (s.text .default) "f" .default = .ok u ∧ u.text .default = s.text .default ∧
      u.outline id = s.outline commentLines := by
  obtain ⟨s, hs⟩ := exists_ok_of_isOk
    (show (Script.ofText "/* a \n b */ stop; # c" "f" .default).isOk = true by decide +kernel)
  obtain ⟨u, hu, htext, houtline⟩ := text_idempotent blankIndent_default hs
  exact ⟨s, u, hs, hu, htext, houtline rfl⟩

end MailFilter
