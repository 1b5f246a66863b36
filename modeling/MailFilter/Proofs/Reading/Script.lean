import MailFilter.Proofs.Reading.Commands
import MailFilter.Proofs.Script.Names
import MailFilter.Proofs.Text.Charset

/-!
# Canonical texts read back

The canonical text of a printable script is read as a script of the same outline.  The `require` at
the front, which the layout writes with the capabilities of the script, gives them back to it.
-/

namespace MailFilter.Reading

open Layout

variable {α : Type} {l : LayoutOptions}

/-! ## The first command -/

theorem isDeclaration_outlineAll (as : List (Argument α)) :
    Argument.isDeclaration (Argument.outlineAll as) = Argument.isDeclaration as := by
  match as with
  | [] => rfl
  | [a] => cases a <;> rfl
  | a :: b :: as =>
      rw [Argument.outlineAll, Argument.outlineAll, Argument.isDeclaration, Argument.isDeclaration]
      all_goals simp

theorem declared?_eq_none {as : List (Argument Pos)} (h : Argument.isDeclaration as = false) :
    declared? as = none := by
  unfold declared?
  split
  · cases h
  · cases h
  · rfl

theorem assemble_plain {b : Block} (filename : String)
    (h : ∀ c ∈ b.commands.head?, c.head.keyword? = some .require →
      Argument.isDeclaration c.head.arguments = false) :
    assemble b filename = ⟨b, [], filename, ⟨1, 1, 0⟩⟩ := by
  unfold assemble
  split
  · next c rest hcs =>
      rw [hcs] at h
      split
      · next hrequire => rw [declared?_eq_none (h c rfl (by simpa using hrequire))]
      · rfl
  · rfl

theorem assemble_declared {b : Block} {head : Head Pos} {rest : List Command} {names : List String}
    {p : Pos} (filename : String) (hb : b.commands = .simple head :: rest)
    (hname : head.name = "require") (harguments : head.arguments = [.strings names p])
    (hnodup : names.Nodup) :
    assemble b filename =
      ⟨{ b with commands := .simple { head with arguments := [] } :: rest }, names, filename,
        ⟨1, 1, 0⟩⟩ := by
  have hrequire : (head.keyword? == some .require) = true := by
    rw [Head.keyword?, hname]
    decide +kernel
  unfold assemble
  rw [hb]
  simp only [Command.head, hrequire, if_true, harguments, declared?, Command.block?, Command.ofParts,
    eraseDups_of_nodup hnodup]

/-! ## Scripts -/

/-- The command that a layout writes for capabilities. -/
def declaring (capabilities : List String) (c : Command α) : Command α :=
  .simple ⟨"require", [.strings capabilities c.head.mark], c.head.comments, c.head.mark⟩

theorem requireItems_eq (capabilities : List String) (c : Command α) :
    requireItems l capabilities c = commandItems l (declaring capabilities c) := by
  rw [requireItems, declaring, commandItems, headItems, List.append_assoc]
  rfl

theorem isControl?_require : Registry.default.isControl? "require" = some false := by
  decide +kernel

theorem printable_declaring (capabilities : List String) (c : Command α) :
    (declaring capabilities c).Printable := by
  refine ⟨⟨isAtom_require, trivial, trivial⟩, ?_⟩
  dsimp only
  rw [isControl?_require]
  simp

theorem declaring_of_outline {f g : List String → List String} {capabilities : List String}
    {c : Command α} {c' : Command} (h : c'.outline f = (declaring capabilities c).outline g) :
    ∃ head p, c' = .simple head ∧ head.name = "require" ∧
      head.arguments = [.strings capabilities p] ∧
      Comment.outlineAll f head.comments = Comment.outlineAll g c.head.comments := by
  cases c' with
  | control => simp [declaring, Command.outline] at h
  | simple head =>
      simp only [declaring, Command.outline, Command.simple.injEq, Head.outline, Head.mk.injEq,
        Argument.outlineAll, Argument.outline] at h
      obtain ⟨hname, harguments, hcomments, -⟩ := h
      match hcases : head.arguments with
      | [] => simp [hcases, Argument.outlineAll] at harguments
      | [a] =>
          cases a <;> simp [hcases, Argument.outlineAll, Argument.outline] at harguments
          exact ⟨head, _, rfl, hname, by rw [hcases, harguments], hcomments⟩
      | a :: b :: as => simp [hcases, Argument.outlineAll] at harguments

theorem simple_of_isBareRequire {c : Command α} (hprint : c.Printable)
    (h : c.head.isBareRequire = true) :
    ∃ comments mark, c = .simple ⟨"require", [], comments, mark⟩ := by
  have hname : ∀ head : Head α, head.Printable → head.isBareRequire = true →
      head.name = "require" ∧ head.arguments = [] := by
    intro head hhead hbare
    simp only [Head.isBareRequire, Head.keyword?, Leaf.text?_string, Option.bind_some,
      Bool.and_eq_true, beq_iff_eq, List.isEmpty_iff] at hbare
    refine ⟨?_, hbare.2⟩
    rw [← hhead.name.2 (by rw [hbare.1]; rfl), Keyword.lower_eq_text hbare.1]
    rfl
  cases c with
  | simple head =>
      obtain ⟨name, arguments, comments, mark⟩ := head
      obtain ⟨rfl, rfl⟩ := hname _ hprint.1 h
      exact ⟨comments, mark, rfl⟩
  | control head commands trailing opening =>
      have hcontrol := hprint.2.1
      rw [(hname head hprint.1 h).1, isControl?_require] at hcontrol
      exact absurd rfl hcontrol

theorem front_of_outline {f g : List String → List String} {cs : List (Command α)}
    {cs' : List Command}
    (h : ∀ c ∈ cs.head?, c.head.keyword? = some .require →
      Argument.isDeclaration c.head.arguments = false)
    (houtline : Command.outlineAll f cs' = Command.outlineAll g cs) :
    ∀ c ∈ cs'.head?, c.head.keyword? = some .require →
      Argument.isDeclaration c.head.arguments = false := by
  cases cs' with
  | nil => simp
  | cons c' cs' =>
      cases cs with
      | nil => simp [Command.outlineAll] at houtline
      | cons c cs =>
          rintro _ ⟨⟩ hrequire
          simp only [Command.outlineAll, List.cons.injEq] at houtline
          have hhead : c'.head.outline f = c.head.outline g := by
            have := congrArg Command.head houtline.1
            cases c <;> cases c' <;> exact this
          have hname : c'.head.name = c.head.name := congrArg Head.name hhead
          have harguments := congrArg Head.arguments hhead
          rw [Head.keyword?, hname] at hrequire
          rw [← isDeclaration_outlineAll, show Argument.outlineAll c'.head.arguments = _ from harguments]
          exact (isDeclaration_outlineAll _).trans (h c rfl hrequire)

theorem capabilities_eq_nil {s : Script α} (hs : s.Printable) (h : s.requireHead? = none) :
    s.capabilities = [] := by
  by_contra hne
  have := hs.declared hne
  rw [h] at this
  cases this

theorem run_block (cs : List (Command α)) (hcs : Command.PrintableAll cs) {trailing : List Comment}
    {limit : Value} (hdepth : Permits ⟨.default, limit⟩ (Command.heightAll cs)) {ts : List Token}
    (p : Pos) (hts : ts.map (·.item) = commandsItems l cs ++ commentItems l trailing) :
    ∃ b, run ⟨.default, limit⟩ .start (ts ++ [⟨.endOfInput, p⟩]) = .ok b ∧
      Command.outlineAll id b.commands = Command.outlineAll (commentTexts l) cs ∧
      Comment.outlineAll id b.trailing = Comment.outlineAll (commentTexts l) trailing := by
  obtain ⟨us, vs, rfl, hus, hvs⟩ := List.map_eq_append_iff.1 hts
  obtain ⟨cs', hcommands, hcs'⟩ := reads_commands (o := ⟨.default, limit⟩) rfl cs hcs [] []
    (hdepth.mono (by simp)) hus
  obtain ⟨trailing', hcomments, htrailing⟩ :=
    reads_comments (o := ⟨.default, limit⟩) ⟨[], [], [] ++ cs', .statement⟩ hvs
  refine ⟨⟨cs', trailing', .nowhere⟩, ?_, hcs', outlineAll_comments htrailing⟩
  exact run_append (hcommands.append hcomments) (some p)

theorem outline_assemble_plain {s : Script α} (hs : s.Printable) {b : Block} (filename : String)
    (hcommands : Command.outlineAll id b.commands = Command.outlineAll (commentTexts l) s.commands)
    (htrailing : Comment.outlineAll id b.trailing =
      Comment.outlineAll (commentTexts l) s.block.trailing)
    (hnone : s.capabilities = []) :
    (assemble b filename).outline id = s.outline (commentTexts l) := by
  rw [assemble_plain filename]
  · simp only [Script.outline, Script.commands] at hcommands ⊢
    rw [hcommands, htrailing, hnone]
  · exact front_of_outline hs.front hcommands

theorem outline_assemble_declared {s : Script α} (hs : s.Printable) {c : Command α}
    {cs : List (Command α)} (hcs : s.commands = c :: cs) (hbare : c.head.isBareRequire = true)
    {b : Block} (filename : String)
    (hcommands : Command.outlineAll id b.commands =
      Command.outlineAll (commentTexts l) (declaring s.capabilities c :: cs))
    (htrailing : Comment.outlineAll id b.trailing =
      Comment.outlineAll (commentTexts l) s.block.trailing) :
    (assemble b filename).outline id = s.outline (commentTexts l) := by
  have hprint := hs.commands
  rw [hcs] at hprint
  obtain ⟨comments, mark, rfl⟩ := simple_of_isBareRequire hprint.1 hbare
  cases hb : b.commands with
  | nil => simp [hb, Command.outlineAll] at hcommands
  | cons c' rest =>
      simp only [hb, Command.outlineAll, List.cons.injEq] at hcommands
      obtain ⟨head, q, rfl, hname, harguments, hcomments⟩ := declaring_of_outline hcommands.1
      rw [assemble_declared filename hb hname harguments hs.nodup]
      simp only [Script.outline, Script.commands] at hcs ⊢
      simp only [hcs, Command.outlineAll, Command.outline, Head.outline, hname, hcomments,
        hcommands.2, htrailing, Command.head, Argument.outlineAll]

theorem height_declaring_le (capabilities : List String) (c : Command α) (cs : List (Command α)) :
    Command.heightAll (declaring capabilities c :: cs) ≤ max c.height (Command.heightAll cs) := by
  rw [Command.heightAll, declaring, Command.height]
  simp only [Test.heightOf]
  omega

/-- The canonical text of a printable script is read as a script of the same outline, with the
comments that the layout writes.  The charset only moves its places. -/
theorem ofTextIn_of_printable {s : Script α} (hs : s.Printable) (hl : BlankIndent l)
    {charset : String} {c : Text.Charset} (hcharset : Text.Charset.ofName? charset = some c)
    (filename : String) {limit : Value}
    (hdepth : Permits ⟨.default, limit⟩ (Command.heightAll s.commands)) :
    ∃ u, Script.ofTextIn charset (s.text l) filename ⟨.default, limit⟩ = .ok u ∧
      u.outline id = s.outline (commentTexts l) := by
  have hspells := spells_script hl hs.commands
  obtain ⟨ts, p, hcomplete, hts⟩ := complete_of_spells hcharset hspells
  have hread : ∀ b, run ⟨.default, limit⟩ .start (ts ++ [⟨.endOfInput, p⟩]) = .ok b →
      Script.ofTextIn charset (s.text l) filename ⟨.default, limit⟩ = .ok (assemble b filename) := by
    intro b hb
    rw [Script.ofTextIn, hcomplete]
    exact congrArg (Except.map (assemble · filename)) hb
  -- The layout writes the capabilities only at a first command that is a `require` without arguments;
  -- in the other two cases there are none.
  cases hcs : s.commands with
  | nil =>
      have hnone := capabilities_eq_nil hs (by simp [Script.requireHead?, hcs])
      rw [scriptItems, hcs] at hts
      obtain ⟨b, hb, hcommands, htrailing⟩ := run_block ([] : List (Command α)) trivial
        (hdepth.mono (by simp [Command.heightAll])) p hts
      refine ⟨_, hread b hb, outline_assemble_plain hs filename ?_ htrailing hnone⟩
      rw [hcs]
      exact hcommands
  | cons c cs =>
      have hprint := hs.commands
      rw [hcs] at hprint hdepth
      rw [scriptItems, hcs] at hts
      dsimp only at hts
      rw [Command.heightAll] at hdepth
      by_cases hbare : c.head.isBareRequire = true
      · rw [if_pos hbare, requireItems_eq] at hts
        obtain ⟨b, hb, hcommands, htrailing⟩ := run_block
          (declaring s.capabilities c :: cs) ⟨printable_declaring _ _, hprint.2⟩
          (hdepth.mono (height_declaring_le _ c cs)) p hts
        exact ⟨_, hread b hb, outline_assemble_declared hs hcs hbare filename hcommands htrailing⟩
      · rw [if_neg hbare] at hts
        have hnone := capabilities_eq_nil hs (by simp [Script.requireHead?, hcs, hbare])
        obtain ⟨b, hb, hcommands, htrailing⟩ := run_block (c :: cs) hprint
          (hdepth.mono (Nat.le_refl _)) p hts
        refine ⟨_, hread b hb, outline_assemble_plain hs filename ?_ htrailing hnone⟩
        rw [hcs]
        exact hcommands

theorem ofText_of_printable {s : Script α} (hs : s.Printable) (hl : BlankIndent l)
    (filename : String) {limit : Value}
    (hdepth : Permits ⟨.default, limit⟩ (Command.heightAll s.commands)) :
    ∃ u, Script.ofText (s.text l) filename ⟨.default, limit⟩ = .ok u ∧
      u.outline id = s.outline (commentTexts l) :=
  ofTextIn_of_printable hs hl Text.ofName?_utf8 filename hdepth

end MailFilter.Reading
