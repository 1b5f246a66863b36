import MailFilter.Proofs.Script.Unmarked
import MailFilter.Proofs.Store.Planting

/-!
# Trees in cells

A new tree can be found in a store again, command by command: a walk over the cells is a walk over the
tree, with heads that are the same but for their marks.
-/

namespace MailFilter

variable {α τ : Type} [Leaf τ]

namespace Store

variable {s s' : Store} {lost : List CommandId} {pending : List CommandId}
  {first first' b : BlockId} {c : CommandId}

mutual

/-- A command in a store with all that is below it is a tree.  No block of it comes before a first
one. -/
def Shows (s : Store) (first : BlockId) (c : CommandId) : Command α τ → Prop
  | .simple h => c < s.commands.size ∧ (s.command c).head.unmarked = h.unmarked ∧
    (s.command c).block = none
  | .control h cs _ _ => c < s.commands.size ∧ (s.command c).head.unmarked = h.unmarked ∧
    ∃ b, (s.command c).block = some b ∧ first ≤ b ∧ b < s.blocks.size ∧
      ShowsAll s first (s.block b).commands cs

def ShowsAll (s : Store) (first : BlockId) (ids : List CommandId) : List (Command α τ) → Prop
  | [] => ids = []
  | t :: ts => ∃ c rest, ids = c :: rest ∧ Shows s first c t ∧ ShowsAll s first rest ts

end

/-- What a tree is in a store does not depend on other cells. -/
structure KeepsFrom (s s' : Store) (first first' : BlockId) : Prop where
  commands : s.commands.size ≤ s'.commands.size
  blocks : s.blocks.size ≤ s'.blocks.size
  command : ∀ c, c < s.commands.size → s'.command c = s.command c
  list : ∀ b, first ≤ b → b < s.blocks.size → (s'.block b).commands = (s.block b).commands
  first : first' ≤ first

theorem Extends.keepsFrom (h : Extends s s') (hfirst : first' ≤ first) : KeepsFrom s s' first first' :=
  ⟨h.commands, h.blocks, h.command, fun b _ hb => congrArg BlockCell.commands (h.block b hb), hfirst⟩

theorem keepsFrom_modifyBlock {ids : List CommandId} (hb : b < first) (hfirst : first' ≤ first) :
    KeepsFrom s (s.modifyBlock b ({ · with commands := ids })) first first' := by
  refine ⟨Nat.le_refl _, Array.size_modify.ge, fun _ _ => rfl, fun d hd _ => ?_, hfirst⟩
  have hne : b ≠ d := Nat.ne_of_lt (hb.trans_le hd)
  simp only [block, modifyBlock, Array.getD_eq_getD_getElem?, Array.getElem?_modify, if_neg hne]

mutual

theorem KeepsFrom.shows (hsame : KeepsFrom s s' first first') :
    ∀ (t : Command α τ) {c : CommandId}, Shows s first c t → Shows s' first' c t
  | .simple h, c, ⟨hc, hhead, hblock⟩ => by
      refine ⟨hc.trans_le hsame.commands, ?_, ?_⟩
      · rwa [hsame.command c hc]
      · rwa [hsame.command c hc]
  | .control h cs _ _, c, ⟨hc, hhead, b, hblock, hfirst, hb, hids⟩ => by
      refine ⟨hc.trans_le hsame.commands, ?_, b, ?_, hsame.first.trans hfirst,
        hb.trans_le hsame.blocks, ?_⟩
      · rwa [hsame.command c hc]
      · rwa [hsame.command c hc]
      · rw [hsame.list b hfirst hb]
        exact KeepsFrom.showsAll hsame cs hids

theorem KeepsFrom.showsAll (hsame : KeepsFrom s s' first first') :
    ∀ (ts : List (Command α τ)) {ids : List CommandId},
      ShowsAll s first ids ts → ShowsAll s' first' ids ts
  | [], _, hids => hids
  | t :: ts, _, ⟨c, rest, hids, hc, hrest⟩ =>
      ⟨c, rest, hids, KeepsFrom.shows hsame t hc, KeepsFrom.showsAll hsame ts hrest⟩

end

/-! ## Walks -/

mutual

theorem Shows.walkTo : ∀ (t : Command α τ) {c : CommandId} {depth : Nat}, Shows s first c t →
    t.walk.length ≤ depth →
    (s.walkTo depth c).map (fun d => (s.command d).head.unmarked) = t.walk.map (·.head.unmarked)
  | .simple h, c, depth, ⟨_, hhead, hblock⟩, hdepth => by
      rw [Command.walk, List.length_singleton] at hdepth
      obtain ⟨depth, rfl⟩ := Nat.exists_eq_add_of_le' hdepth
      rw [Store.walkTo, children, hblock, Command.walk]
      exact congrArg (· :: []) hhead
  | .control h cs _ _, c, depth, ⟨_, hhead, b, hblock, _, _, hids⟩, hdepth => by
      rw [Command.walk, List.length_cons] at hdepth
      obtain ⟨depth, rfl⟩ := Nat.exists_eq_add_of_le' (Nat.le_of_add_left_le hdepth)
      rw [Store.walkTo, children, hblock, Command.walk, List.map_cons, List.map_cons, hhead,
        ShowsAll.walkTo cs hids (by omega)]
      rfl

theorem ShowsAll.walkTo : ∀ (ts : List (Command α τ)) {ids : List CommandId} {depth : Nat},
    ShowsAll s first ids ts → (Command.walkAll ts).length ≤ depth →
    (ids.flatMap (s.walkTo depth)).map (fun d => (s.command d).head.unmarked) =
      (Command.walkAll ts).map (·.head.unmarked)
  | [], _, depth, hids, _ => by
      cases hids
      rfl
  | t :: ts, _, depth, ⟨c, rest, hids, hc, hrest⟩, hdepth => by
      rw [Command.walkAll, List.length_append] at hdepth
      rw [hids, List.flatMap_cons, Command.walkAll, List.map_append, List.map_append,
        Shows.walkTo t hc (by omega), ShowsAll.walkTo ts hrest (by omega)]

end

/-! ## New trees -/

section New

variable [Located α]

mutual

theorem size_addCommand : ∀ (t : Command α τ) (s : Store) (parent : Option BlockId),
    (s.addCommand parent t).1.commands.size = s.commands.size + t.walk.length
  | .simple h, s, parent => by
      rw [addCommand, Command.walk]
      exact Array.size_push _
  | .control h cs trailing opening, s, parent => by
      rw [addCommand, Command.walk, List.length_cons]
      refine (size_addCommands cs _ _).trans ?_
      exact (congrArg (· + (Command.walkAll cs).length) (Array.size_push _)).trans
        (Nat.succ_add_eq_add_succ _ _)

theorem size_addCommands : ∀ (ts : List (Command α τ)) (s : Store) (b : BlockId),
    (s.addCommands b ts).1.commands.size = s.commands.size + (Command.walkAll ts).length
  | [], s, b => rfl
  | t :: ts, s, b => by
      rw [addCommands, Command.walkAll, List.length_append]
      refine (size_addCommands ts _ b).trans ?_
      rw [size_addCommand t s (some b)]
      omega

end

theorem unmarked_addCell (parent : Option BlockId) (h : Head α τ) (block : Option BlockId) :
    ((s.addCell parent h block).1.command s.commands.size).head.unmarked = h.unmarked := by
  have hcomments : (h.comments.map (·.map Leaf.value)).map (Comment.map (Leaf.value : Value → Value)) =
      h.comments.map (·.map Leaf.value) := List.map_id _
  have harguments : Argument.mapAll (fun _ => ()) Leaf.value
      (Argument.labelAll s.nextMark h.arguments).1 =
        Argument.mapAll (fun _ => ()) Leaf.value h.arguments :=
    Argument.mapAll_labelAll _ _
  rw [command_push rfl, if_pos rfl]
  simp only [Head.unmarked, Head.map, hcomments, harguments]
  rfl

omit [Located α] in
theorem Shows.close {s'' : Store} {head : Head α τ} {cs : List (Command α τ)} {ids : List CommandId}
    {trailing : List (Comment τ)} {opening : Pos} (hext : Extends s' s'') (hc : c < s'.commands.size)
    (hb : b < s'.blocks.size) (hhead : (s'.command c).head.unmarked = head.unmarked)
    (hblock : (s'.command c).block = some b) (hids : ShowsAll s'' s'.blocks.size ids cs) :
    Shows (s''.modifyBlock b ({ · with commands := ids })) b c (.control head cs trailing opening) := by
  have hlt := hb.trans_le hext.blocks
  refine ⟨hc.trans_le hext.commands, ?_, b, ?_, Nat.le_refl _, ?_, ?_⟩
  · rwa [command_modifyBlock, hext.command c hc]
  · rwa [command_modifyBlock, hext.command c hc]
  · rwa [modifyBlock, Array.size_modify]
  · rw [block_modifyBlock _ _ _ _ hlt, if_pos rfl]
    exact (keepsFrom_modifyBlock hb hb.le).showsAll cs hids

mutual

theorem shows_addCommand (t : Command α τ) {s : Store} {pending : List CommandId}
    (parent : Option BlockId) (h : s.Joined pending) (hpending : ∀ c ∈ pending, c < s.commands.size) :
    Shows (s.addCommand parent t).1 s.blocks.size (s.addCommand parent t).2 t := by
  match t with
  | .simple head =>
      have hhead := unmarked_addCell (s := s) parent head none
      rw [addCommand]
      refine ⟨?_, hhead, ?_⟩
      · exact Array.size_push _ ▸ Nat.lt_succ_self _
      · rw [command_push rfl]
        exact congrArg CommandCell.block (if_pos rfl)
  | .control head cs trailing opening =>
      have hopen := added_open h parent head (trailing.map (·.map Leaf.value)) opening
      have hids := added_commands cs s.blocks.size hopen.joined (hopen.waiting_lt hpending)
      have hshows := shows_addCommands cs s.blocks.size hopen.joined (hopen.waiting_lt hpending)
      rw [addCommand]
      refine Shows.close hids.ext hopen.lt ?_ (unmarked_addCell parent head _) ?_ hshows
      · exact Array.size_push _ ▸ Nat.lt_succ_self _
      · rw [command_push rfl]
        exact congrArg CommandCell.block (if_pos rfl)

theorem shows_addCommands (ts : List (Command α τ)) {s : Store} {pending : List CommandId}
    (b : BlockId) (h : s.Joined pending) (hpending : ∀ c ∈ pending, c < s.commands.size) :
    ShowsAll (s.addCommands b ts).1 s.blocks.size (s.addCommands b ts).2 ts := by
  match ts with
  | [] => rfl
  | t :: ts =>
      have ht := added_command t (some b) h hpending
      have hts := added_commands ts b ht.joined (ht.waiting_lt hpending)
      have hshows := shows_addCommand t (some b) h hpending
      have hrest := shows_addCommands ts b ht.joined (ht.waiting_lt hpending)
      rw [addCommands]
      refine ⟨_, _, rfl, (hts.ext.keepsFrom (Nat.le_refl _)).shows t hshows, ?_⟩
      exact KeepsFrom.showsAll ⟨Nat.le_refl _, Nat.le_refl _, fun _ _ => rfl, fun _ _ _ => rfl,
        ht.ext.blocks⟩ ts hrest

end

theorem showsAll_addScript (h : s.Owned lost) (t : Script α τ) :
    ShowsAll (s.addScript t).1 s.blocks.size
      ((s.addScript t).1.block ((s.addScript t).1.script s.scripts.size).block).commands t.commands := by
  have hshows := shows_addCommands t.commands s.blocks.size (h.toJoined.withTop t)
    h.lt_of_lost
  have hkeeps : KeepsFrom ((s.withTop t).addCommands s.blocks.size t.commands).1 (s.addScript t).1
      (s.withTop t).blocks.size s.blocks.size := by
    refine ⟨Nat.le_refl _, Array.size_modify.ge, fun _ _ => rfl, fun b hb _ => ?_,
      (lt_size_withTop t).le⟩
    rw [block_addScript h, if_neg (Nat.ne_of_gt ((lt_size_withTop t).trans_le hb))]
  rw [(appended_addScript h t).script_new, block_addScript h, if_pos rfl]
  exact hkeeps.showsAll t.commands hshows

/-- A walk over a new script is a walk over its tree. -/
theorem walkScript_addScript (h : s.Owned lost) (t : Script α τ) :
    ((s.addScript t).1.walkScript s.scripts.size).map
        (fun c => ((s.addScript t).1.command c).head.unmarked) = t.walk.map (·.head.unmarked) := by
  have hsize : t.walk.length ≤ (s.addScript t).1.commands.size := by
    have := size_addCommands t.commands (s.withTop t) s.blocks.size
    exact this ▸ Nat.le_add_left _ _
  exact ShowsAll.walkTo t.commands (showsAll_addScript h t) hsize

/-- A script in a store is a tree, in which every command names the block that lists it, every block
the command that has it, and the top block the script. -/
structure Linked (s : Store) (k : ScriptId) (t : Script α τ) : Prop where
  shows : ShowsAll s 0 (s.block (s.script k).block).commands t.commands
  parent : ∀ c b, c ∈ (s.block b).commands → (s.command c).parent = some b
  owner : ∀ c b, (s.command c).block = some b → (s.block b).owner = some (.command c)
  top : (s.block (s.script k).block).owner = some (.script k)

theorem linked_addScript (h : s.Owned lost) (t : Script α τ) :
    (s.addScript t).1.Linked s.scripts.size t := by
  have howned := owned_addScript h t
  have hanywhere : KeepsFrom (s.addScript t).1 (s.addScript t).1 s.blocks.size 0 :=
    ⟨Nat.le_refl _, Nat.le_refl _, fun _ _ => rfl, fun _ _ _ => rfl, Nat.zero_le _⟩
  have hlt : s.scripts.size < (s.addScript t).1.scripts.size := by
    rw [(appended_addScript h t).scripts, Array.size_push]
    exact Nat.lt_succ_self _
  exact ⟨hanywhere.showsAll t.commands (showsAll_addScript h t), fun _ _ => howned.parent_of_mem,
    howned.own, howned.top _ hlt⟩

end New

end Store

end MailFilter
