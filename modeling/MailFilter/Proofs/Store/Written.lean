import MailFilter.Proofs.Layout.Items
import MailFilter.Proofs.Script.Texts
import MailFilter.Proofs.Store.Heights
import MailFilter.Store.Report

/-!
# Stores that can be written

Where every command of a store can be written, so can every script, and its text is that of its tree.
-/

namespace MailFilter.Store

open Relation

variable {s s' : Store} {lost : List CommandId} {k : ScriptId} {b : BlockId} {c : CommandId}

/-- A command of text that can be written, but for what is in its block. -/
def CommandCell.Written (cell : CommandCell) : Prop :=
  ∃ h : Head Mark, h.Printable ∧ cell.head = h.map id Value.text ∧
    Registry.default.isControl? h.name ≠ some cell.block.isNone

/-- All commands can be written, and all comments are text. -/
structure AllWritten (s : Store) : Prop where
  commands : ∀ c, c < s.commands.size → (s.command c).Written
  trailing : ∀ b, ∃ cs : List Comment, (s.block b).trailing = cs.map (·.map Value.text)

/-! ## Changes -/

theorem AllWritten.modifyScript (hall : s.AllWritten) (f : ScriptCell → ScriptCell) :
    (s.modifyScript k f).AllWritten :=
  ⟨hall.commands, hall.trailing⟩

theorem AllWritten.modifyBlock (hall : s.AllWritten) {f : BlockCell → BlockCell}
    (hf : ∀ cell, (f cell).trailing = cell.trailing) : (s.modifyBlock b f).AllWritten := by
  refine ⟨hall.commands, fun d => ?_⟩
  have htrailing : ((s.modifyBlock b f).block d).trailing = (s.block d).trailing := by
    simp only [block, Store.modifyBlock, Array.getD_eq_getD_getElem?, Array.getElem?_modify]
    by_cases hbd : b = d
    · subst hbd
      cases s.blocks[b]? <;> simp [hf]
    · simp [hbd]
  exact htrailing ▸ hall.trailing d

theorem AllWritten.modifyCommand (hall : s.AllWritten) {f : CommandCell → CommandCell}
    (hf : (s.command c).Written → (f (s.command c)).Written) : (s.modifyCommand c f).AllWritten := by
  refine ⟨fun d hd => ?_, hall.trailing⟩
  rw [Store.modifyCommand, Array.size_modify] at hd
  by_cases hdc : d = c
  · subst hdc
    rw [command_modifyCommand s d d f hd, if_pos rfl]
    exact hf (hall.commands d hd)
  · have hsame : (s.modifyCommand c f).command d = s.command d := by
      simp only [command, Store.modifyCommand, Array.getD_eq_getD_getElem?, Array.getElem?_modify,
        if_neg (Ne.symm hdc)]
    rw [hsame]
    exact hall.commands d hd

/-! ## Trees -/

theorem settled_simple (h : Head Mark Value) :
    (Command.simple h).settled = .simple (h.map id Leaf.plain) := rfl

theorem settled_control (h : Head Mark Value) (cs : List (Command Mark Value))
    (trailing : List (Comment Value)) (opening : Pos) :
    (Command.control h cs trailing opening).settled =
      .control (h.map id Leaf.plain) (cs.map Command.settled) (trailing.map (·.map Leaf.plain))
        opening := by
  rw [Command.settled, Command.map, Command.mapAll_eq_map]
  rfl

theorem head_treeTo (depth : Nat) (c : CommandId) : (s.treeTo depth c).head = (s.command c).head := by
  cases depth with
  | zero => rfl
  | succ depth =>
      rw [treeTo]
      dsimp only
      split <;> rfl

theorem head_settled (c : Command Mark Value) : c.settled.head = c.head.map id Leaf.plain := by
  cases c <;> rfl

section Trees

variable (hall : s.AllWritten) (h : s.Owned lost)

include hall

theorem AllWritten.head_text (hc : c < s.commands.size) :
    ((s.command c).head.map id Leaf.plain).map id Value.text = (s.command c).head := by
  obtain ⟨head, -, hhead, -⟩ := hall.commands c hc
  rw [hhead, Head.map_plain]

theorem AllWritten.trailing_text (b : BlockId) :
    ((s.block b).trailing.map (·.map Leaf.plain)).map (·.map Value.text) = (s.block b).trailing := by
  obtain ⟨cs, hcs⟩ := hall.trailing b
  rw [hcs, Comment.map_plain]

include h

theorem AllWritten.settled_treeTo (depth : Nat) (hc : c < s.commands.size) :
    (s.treeTo depth c).settled.map id Value.text = s.treeTo depth c := by
  have hhead := hall.head_text hc
  induction depth generalizing c with
  | zero => exact congrArg Command.simple hhead
  | succ depth ih =>
      rw [treeTo]
      cases hblock : (s.command c).block with
      | none => exact congrArg Command.simple hhead
      | some b =>
          simp only [settled_control, Command.map, hhead, hall.trailing_text, Command.mapAll_eq_map,
            List.map_map]
          congr 1
          refine List.map_congr_left fun d hd => ?_
          exact ih (h.command_lt hd) (hall.head_text (h.command_lt hd))

theorem AllWritten.printable_treeTo {depth : Nat} (hc : c < s.commands.size)
    (hdepth : (s.descendants c).card < depth) : (s.treeTo depth c).settled.Printable := by
  induction depth generalizing c with
  | zero => exact absurd hdepth (Nat.not_lt_zero _)
  | succ depth ih =>
      obtain ⟨head, hprint, hhead, hcontrol⟩ := hall.commands c hc
      rw [treeTo]
      cases hblock : (s.command c).block with
      | none =>
          rw [hblock] at hcontrol
          rw [hhead, settled_simple, Head.map_plain]
          exact ⟨hprint, hcontrol⟩
      | some b =>
          rw [hblock] at hcontrol
          simp only [settled_control, hhead, Head.map_plain, List.map_map]
          refine ⟨hprint, hcontrol, Command.printableAll_iff.2 (List.forall_mem_map.2 fun d hd => ?_)⟩
          have hbelow : s.Below d c := ⟨b, hblock, hd⟩
          have := Finset.card_lt_card ((h.grounded hc).descendants_ssubset hbelow)
          exact ih (h.command_lt hd) (by omega)

theorem AllWritten.printable_tree (hc : c < s.commands.size) : (s.tree c).settled.Printable :=
  hall.printable_treeTo h hc (h.grounded hc).card_descendants_lt

end Trees

theorem heightAll_le {α τ : Type} {cs : List (Command α τ)} {limit : Nat} :
    Command.heightAll cs ≤ limit ↔ ∀ c ∈ cs, c.height ≤ limit := by
  induction cs with
  | nil => simp [Command.heightAll]
  | cons c cs ih => rw [Command.heightAll, Nat.max_le, ih, List.forall_mem_cons]

theorem height_treeTo {limit : Nat} (hdeep : s.Within c limit) (depth : Nat) :
    (s.treeTo depth c).settled.height ≤ limit := by
  induction depth generalizing c limit with
  | zero =>
      have hown := hdeep 0 c .self
      rw [ownHeight] at hown
      rw [treeTo, settled_simple, Command.height, Head.map, Test.heightOf_mapAll]
      omega
  | succ depth ih =>
      have hown := hdeep 0 c .self
      rw [ownHeight] at hown
      rw [treeTo]
      cases hblock : (s.command c).block with
      | none =>
          dsimp only
          rw [settled_simple, Command.height, Head.map, Test.heightOf_mapAll]
          omega
      | some b =>
          dsimp only
          rw [settled_control, Command.height, Head.map, Test.heightOf_mapAll]
          rw [hblock, Option.isSome_some, if_pos rfl] at hown
          have hbelow : Command.heightAll (((s.block b).commands.map (s.treeTo depth)).map
              Command.settled) ≤ limit - 1 := by
            rw [heightAll_le, List.forall_mem_map, List.forall_mem_map]
            intro d hd
            refine ih fun n e he => ?_
            have := hdeep (n + 1) e (he.above ⟨b, hblock, hd⟩)
            omega
          omega

/-! ## Scripts -/

theorem settled_scriptTree (s : Store) (k : ScriptId) :
    (s.scriptTree k).settled.commands =
      (s.block (s.script k).block).commands.map fun c => (s.tree c).settled := by
  show Command.mapAll id Leaf.plain ((s.block (s.script k).block).commands.map s.tree) = _
  rw [Command.mapAll_eq_map, List.map_map]
  rfl

theorem Shallow.heightAll_le {limit : Nat} (h : s.Shallow k limit) :
    Command.heightAll (s.scriptTree k).settled.commands ≤ limit := by
  rw [settled_scriptTree, Store.heightAll_le, List.forall_mem_map]
  exact fun c hc => height_treeTo (h c hc) _

theorem AllWritten.isBareRequire_settled (hall : s.AllWritten) (hc : c < s.commands.size) :
    (s.tree c).settled.head.isBareRequire = (s.command c).head.isBareRequire := by
  obtain ⟨head, -, hhead, -⟩ := hall.commands c hc
  rw [head_settled, tree, head_treeTo, hhead, Head.map_plain, Head.isBareRequire, Head.isBareRequire]
  cases harguments : head.arguments <;> simp only [Head.map, Argument.mapAll, harguments] <;> rfl

theorem AllWritten.lineup_eq (hall : s.AllWritten) (h : s.Owned lost) (k : ScriptId) :
    (s.lineup k).map (fun (holds, c) => (holds, c.settled)) = (s.scriptTree k).settled.lineup := by
  have hnodup := h.nodup (s.script k).block
  have hlt := fun c (hc : c ∈ (s.block (s.script k).block).commands) => h.command_lt hc
  rw [Script.lineup, settled_scriptTree, lineup, requireOf?, List.map_map]
  cases hids : (s.block (s.script k).block).commands with
  | nil => rfl
  | cons c ids =>
      rw [hids] at hnodup hlt
      have hbare := hall.isBareRequire_settled (hlt c List.mem_cons_self)
      simp only [List.map_cons, List.head?_cons, List.map_map, hbare]
      refine congrArg₂ List.cons (congrArg (·, _) ?_) (List.map_congr_left fun d hd => ?_)
      · cases hreq : (s.command c).head.isBareRequire <;> simp [hreq]
      · have hne : c ≠ d := fun hcd => (List.nodup_cons.1 hnodup).1 (hcd ▸ hd)
        have hfilter : (some c).filter (fun c => (s.command c).head.isBareRequire) ≠ some d := by
          rw [Ne, Option.filter_eq_some_iff]
          exact fun hsome => hne (Option.some.inj hsome.1)
        simp only [Function.comp_apply, beq_eq_false_iff_ne.2 hfilter]

theorem AllWritten.fitFront (hall : s.AllWritten) (h : s.Owned lost) (k : ScriptId) :
    (s.scriptTree k).fitFront = .ok () := by
  unfold Script.fitFront
  split
  · next c rest hcommands =>
      have hc : c ∈ (s.block (s.script k).block).commands.map s.tree := by
        rw [show (s.block (s.script k).block).commands.map s.tree = _ from hcommands]
        exact List.mem_cons_self
      obtain ⟨d, hd, rfl⟩ := List.mem_map.1 hc
      obtain ⟨head, -, hhead, -⟩ := hall.commands d (h.command_lt hd)
      rw [tree, head_treeTo, hhead]
      rfl
  · rfl

theorem AllWritten.fitTop (hall : s.AllWritten) (h : s.Owned lost) {k : ScriptId}
    {capabilities : List String}
    (hcapabilities : (s.script k).capabilities = capabilities.map Value.text) {o : LayoutOptions}
    (ho : Layout.fitIndent o = .ok ()) : Layout.fitTop o (s.script k).capabilities (s.lineup k)
      (s.block (s.script k).block).trailing = .ok () := by
  obtain ⟨comments, hcomments⟩ := hall.trailing (s.script k).block
  rw [Layout.fitTop, hcomments, Layout.fitComments_text ho]
  have hlineup : ∀ entry ∈ s.lineup k,
      (if entry.1 then do
          Layout.fitComments o entry.2.head.comments
          (s.script k).capabilities.forM Value.fitLiteral
        else Layout.fitCommand o entry.2) = .ok () := by
    refine List.forall_mem_map.2 fun c hc => ?_
    have hlt := h.command_lt hc
    dsimp only
    split
    · obtain ⟨head, -, hhead, -⟩ := hall.commands c hlt
      rw [tree, head_treeTo, hhead, Head.map, Layout.fitComments_text ho, hcapabilities]
      exact forM_eq_ok.2 (List.forall_mem_map.2 fun _ _ => rfl)
    · rw [tree, ← hall.settled_treeTo h s.commands.size hlt]
      exact Layout.fitCommand_text ho _ (hall.printable_tree h hlt)
  exact congrArg (· >>= fun _ => Except.ok ()) (forM_eq_ok.2 hlineup)

/-- The text of a script in a store is that of its tree. -/
theorem AllWritten.text_eq (hall : s.AllWritten) (h : s.Owned lost) {k : ScriptId}
    {capabilities : List String}
    (hcapabilities : (s.script k).capabilities = capabilities.map Value.text) {o : LayoutOptions}
    (ho : Layout.fitIndent o = .ok ()) : s.text o k = .ok ((s.scriptTree k).settled.text o) := by
  rw [text, hall.fitFront h, Script.text, Layout.script, ← hall.lineup_eq h]
  show Layout.ofData _ _ _ _ = _
  rw [Layout.ofData, hall.fitTop h hcapabilities ho]
  rfl

end MailFilter.Store
