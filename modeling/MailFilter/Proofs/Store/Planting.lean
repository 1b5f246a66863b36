import MailFilter.Proofs.Store.Marks
import MailFilter.Proofs.Store.Written

/-!
# New trees can be written

A printable tree that is put into a store stays printable, and takes as many levels there as it has.
What the store held before is as it was.
-/

namespace MailFilter

variable {α τ : Type} [Located α] [Leaf τ]

/-! ## Labels -/

mutual

theorem Argument.map_label (next : Nat) : ∀ a : Argument α τ,
    (a.label next).1.map (fun _ => ()) id = a.map (fun _ => ()) Leaf.value
  | .string .. | .number .. | .tag .. | .foreign .. => rfl
  | .strings .. => by simp only [Argument.label, Argument.map, List.map_id]
  | .test t => congrArg Argument.test (Argument.mapTest_label next t)

theorem Argument.mapTest_label (next : Nat) : ∀ t : Test α τ,
    mapTest (fun _ => ()) id (Test.label next t).1 = mapTest (fun _ => ()) Leaf.value t
  | .mk name as ts m => by
      simp only [Test.label, Argument.mapTest, Argument.mapAll_labelAll _ as,
        Argument.mapAll_labelAll _ ts, id_eq]

theorem Argument.mapAll_labelAll (next : Nat) : ∀ as : List (Argument α τ),
    mapAll (fun _ => ()) id (Argument.labelAll next as).1 = mapAll (fun _ => ()) Leaf.value as
  | [] => rfl
  | a :: as => by
      simp only [Argument.labelAll, Argument.mapAll, Argument.map_label next a,
        Argument.mapAll_labelAll _ as]

end

theorem Argument.heightOf_labelAll (next : Nat) (as : List (Argument α τ)) :
    Test.heightOf (Argument.labelAll next as).1 = Test.heightOf as := by
  have := congrArg Test.heightOf (Argument.mapAll_labelAll next as)
  rwa [Test.heightOf_mapAll, Test.heightOf_mapAll] at this

namespace Store

open Relation

variable {s s' s'' : Store} {lost : List CommandId} {pending : List CommandId} {b : BlockId}
  {c : CommandId} {limit : Nat}

/-! ## What is written -/

theorem AllWritten.pushBlock (hall : s.AllWritten) (comments : List Comment) {cell : BlockCell}
    (hcell : cell.trailing = comments.map (·.map Value.text)) : (s.pushBlock cell).1.AllWritten := by
  refine ⟨hall.commands, fun b => ?_⟩
  rw [block_push rfl]
  split
  · exact ⟨comments, hcell⟩
  · exact hall.trailing b

theorem AllWritten.push (hall : s.AllWritten) {cell : CommandCell} (hcell : cell.Written)
    (hcommands : s'.commands = s.commands.push cell) (hblocks : s'.blocks = s.blocks) :
    s'.AllWritten := by
  refine ⟨fun c hc => ?_, fun b => ?_⟩
  · rw [command_push hcommands]
    split
    · exact hcell
    · next hne =>
        rw [hcommands, Array.size_push] at hc
        exact hall.commands c (Nat.lt_of_le_of_ne (Nat.le_of_lt_succ hc) hne)
  · rw [block, hblocks]
    exact hall.trailing b

theorem AllWritten.addCell (hall : s.AllWritten) (parent : Option BlockId) {head : Head α}
    (hprint : head.Printable) {block : Option BlockId}
    (hcontrol : Registry.default.isControl? head.name ≠ some block.isNone) :
    (s.addCell parent head block).1.AllWritten := by
  obtain ⟨as, hlabel, has⟩ := Argument.exists_textAll _ _
    (Argument.mapAll_labelAll s.nextMark head.arguments)
  refine AllWritten.push hall ?_ rfl rfl
  refine ⟨⟨head.name, as, head.comments, _⟩, ⟨hprint.name, ?_⟩, by rw [hlabel]; rfl, hcontrol⟩
  rw [← Argument.printableAll_mapAll (fun _ => ()), has, Argument.printableAll_mapAll]
  exact hprint.arguments

mutual

theorem allWritten_addCommand (t : Command α) (ht : t.Printable) {s : Store} (hall : s.AllWritten)
    (parent : Option BlockId) : (s.addCommand parent t).1.AllWritten := by
  match t with
  | .simple head =>
      rw [addCommand]
      exact hall.addCell parent ht.1 ht.2
  | .control head cs trailing opening =>
      have hcell : (s.addCell parent head (some s.blocks.size)).1.AllWritten :=
        hall.addCell parent ht.1 ht.2.1
      have hopen : ((s.addCell parent head (some s.blocks.size)).1.pushBlock
          ⟨[], trailing.map (·.map Leaf.value), opening,
            some (.command s.commands.size)⟩).1.AllWritten :=
        hcell.pushBlock trailing rfl
      rw [addCommand]
      exact (allWritten_addCommands cs ht.2.2 hopen _).modifyBlock fun _ => rfl

theorem allWritten_addCommands (ts : List (Command α)) (hts : Command.PrintableAll ts) {s : Store}
    (hall : s.AllWritten) (b : BlockId) : (s.addCommands b ts).1.AllWritten := by
  match ts with
  | [] =>
      rw [addCommands]
      exact hall
  | t :: ts =>
      rw [addCommands]
      exact allWritten_addCommands ts hts.2 (allWritten_addCommand t hts.1 hall (some b)) b

end

theorem allWritten_addScript (t : Script α) (ht : Command.PrintableAll t.commands)
    (hall : s.AllWritten) : (s.addScript t).1.AllWritten := by
  have htop : (s.withTop t).AllWritten := hall.pushBlock t.block.trailing rfl
  have hfilled := (allWritten_addCommands t.commands ht htop s.blocks.size).modifyBlock
    (b := s.blocks.size)
    (f := ({ · with commands := ((s.withTop t).addCommands s.blocks.size t.commands).2 })) fun _ => rfl
  exact ⟨hfilled.commands, hfilled.trailing⟩

/-! ## Where capabilities belong -/

theorem isEmpty_labelAll (next : Nat) (as : List (Argument α τ)) :
    (Argument.labelAll next as).1.isEmpty = as.isEmpty := by
  cases as <;> rfl

theorem isBareRequire_addCommand (h : s.Joined pending) (hpending : ∀ c ∈ pending, c < s.commands.size)
    (t : Command α τ) (parent : Option BlockId) :
    ((s.addCommand parent t).1.command (s.addCommand parent t).2).head.isBareRequire =
      t.head.isBareRequire := by
  have hcell : ∀ (head : Head α τ) (block : Option BlockId),
      ((s.addCell parent head block).1.command s.commands.size).head.isBareRequire =
        head.isBareRequire := by
    intro head block
    rw [command_push rfl, if_pos rfl, Head.isBareRequire, Head.isBareRequire]
    exact congrArg (_ && ·) (isEmpty_labelAll _ _)
  cases t with
  | simple head =>
      rw [addCommand]
      exact hcell head none
  | control head cs trailing opening =>
      have hopen := added_open h parent head (trailing.map (·.map Leaf.value)) opening
      have hids := added_commands cs s.blocks.size hopen.joined (hopen.waiting_lt hpending)
      rw [addCommand]
      exact (congrArg (·.head.isBareRequire) (hids.ext.command _ hopen.lt)).trans (hcell head _)

theorem front_addCommands (h : s.Joined pending) (hpending : ∀ c ∈ pending, c < s.commands.size)
    (ts : List (Command α τ)) (b : BlockId) :
    (s.addCommands b ts).2.head?.any
        (fun c => ((s.addCommands b ts).1.command c).head.isBareRequire) =
      ts.head?.any (·.head.isBareRequire) := by
  cases ts with
  | nil => rfl
  | cons t ts =>
      have ht := added_command t (some b) h hpending
      have hts := added_commands ts b ht.joined (ht.waiting_lt hpending)
      have hcommand := hts.ext.command _ ht.lt
      rw [addCommands]
      exact (congrArg (·.head.isBareRequire) hcommand).trans
        (isBareRequire_addCommand h hpending t (some b))

theorem isSome_requireOf?_addScript (h : s.Owned lost) (t : Script α τ) :
    ((s.addScript t).1.requireOf? s.scripts.size).isSome = t.requireHead?.isSome := by
  have hfront := front_addCommands (h.toJoined.withTop t) h.lt_of_lost t.commands s.blocks.size
  rw [requireOf?, (appended_addScript h t).script_new, block_addScript h, if_pos rfl,
    Option.isSome_filter, Script.requireHead?, Option.isSome_filter, Option.any_map]
  exact hfront

/-! ## How deep it is -/

theorem Retains.within (hsame : Retains s s') (h : s.Joined pending) (hc : c < s.commands.size)
    (hwithin : s.Within c limit) : s'.Within c limit := by
  refine hwithin.congr fun e he => ?_
  exact ⟨hsame.command e ((h.grounded hc).lt e he), fun b hb => hsame.list b (h.block_lt hb)⟩

theorem Within.modifyList (hwithin : s.Within c limit) (ids : List CommandId)
    (hother : ∀ e, ReflTransGen s.Below e c → (s.command e).block ≠ some b) :
    (s.modifyBlock b ({ · with commands := ids })).Within c limit := by
  refine hwithin.congr fun e he => ⟨rfl, fun d hd => ?_⟩
  have hne : d ≠ b := fun hdb => hother e he (hdb ▸ hd)
  rw [block_modifyBlock_of_ne _ hne]

theorem AddedAll.within {ids : List CommandId} (hids : AddedAll s s' b pending ids)
    (hb : b < s.blocks.size) (howner : ∀ e, (s.block b).owner = some (.command e) → e ∈ pending)
    (hpending : ∀ c ∈ pending, c < s.commands.size) (hc : c ∈ ids) (hwithin : s'.Within c limit) :
    (s'.modifyBlock b ({ · with commands := ids })).Within c limit := by
  refine hwithin.modifyList ids fun e he hblock => ?_
  have hown := hids.joined.own e b hblock
  rw [hids.ext.block b hb] at hown
  have hwait := howner e hown
  rcases ReflTransGen.cases_head he with rfl | ⟨f, ⟨d, -, hed⟩, -⟩
  · exact Nat.not_lt.2 (hids.fresh e hc) (hpending e hwait)
  · exact ((hids.joined.listed e d).1 hed).2 (List.mem_append_right ids hwait)

theorem within_of_below (hown : s.ownHeight c ≤ limit)
    (hbelow : ∀ d, s.Below d c → ∃ n, n + 1 ≤ limit ∧ s.Within d n) : s.Within c limit := by
  intro n d hd
  cases n with
  | zero =>
      cases hd
      omega
  | succ n =>
      obtain ⟨e, he, hde⟩ := hd.cases_succ
      obtain ⟨m, hm, hwithin⟩ := hbelow e he
      have := hwithin n d hde
      omega

theorem ownHeight_addCell (parent : Option BlockId) (head : Head α τ) (block : Option BlockId) :
    (s.addCell parent head block).1.ownHeight s.commands.size =
      max (Test.heightOf head.arguments) (if block.isSome then 1 else 0) := by
  have hpush : (s.addCell parent head block).1.commands = s.commands.push ⟨_, block, parent⟩ := rfl
  rw [ownHeight, command_push hpush, if_pos rfl]
  exact congrArg (max · _) (Argument.heightOf_labelAll _ _)

theorem Added.within {parent : Option BlockId} {ids : List CommandId}
    (hopen : Added s s' parent pending c) (hids : AddedAll s' s'' b (c :: pending) ids)
    (hpending : ∀ d ∈ pending, d < s.commands.size) (hb : b < s'.blocks.size)
    (hblock : (s'.command c).block = some b) (hwithin : ∀ d ∈ ids, s''.Within d limit) :
    (s''.modifyBlock b ({ · with commands := ids })).Within c (max (s'.ownHeight c) (1 + limit)) := by
  have hcommand := hids.ext.command c hopen.lt
  refine within_of_below ?_ fun d ⟨b', hb', hd⟩ => ⟨limit, by omega, ?_⟩
  · rw [ownHeight, command_modifyBlock, hcommand]
    exact Nat.le_max_left _ _
  · rw [command_modifyBlock, hcommand, hblock] at hb'
    cases hb'
    rw [block_modifyBlock _ _ _ _ (hb.trans_le hids.ext.blocks), if_pos rfl] at hd
    refine hids.within hb (fun e he => ?_) (hopen.waiting_lt hpending) hd (hwithin d hd)
    have := hopen.joined.own c b hblock
    rw [this] at he
    cases he
    exact List.mem_cons_self

mutual

theorem within_addCommand (t : Command α τ) {s : Store} {pending : List CommandId}
    (parent : Option BlockId) (h : s.Joined pending) (hpending : ∀ c ∈ pending, c < s.commands.size) :
    (s.addCommand parent t).1.Within (s.addCommand parent t).2 t.height := by
  match t with
  | .simple head =>
      have hblock : ((s.addCell parent head none).1.command s.commands.size).block = none := by
        rw [command_push rfl, if_pos rfl]
      have hown := ownHeight_addCell (s := s) parent head none
      rw [addCommand]
      refine within_of_below (hown.trans_le (by simp [Command.height])) fun d ⟨b, hb, _⟩ => ?_
      cases hblock.symm.trans hb
  | .control head cs trailing opening =>
      have hopen := added_open h parent head (trailing.map (·.map Leaf.value)) opening
      have hids := added_commands cs s.blocks.size hopen.joined (hopen.waiting_lt hpending)
      have hwithin := within_addCommands cs s.blocks.size hopen.joined (hopen.waiting_lt hpending)
      have hown := ownHeight_addCell (s := s) parent head (some s.blocks.size)
      rw [addCommand]
      refine (hopen.within hids hpending ?_ ?_ hwithin).mono ?_
      · exact Array.size_push _ ▸ Nat.lt_succ_self _
      · rw [command_push rfl]
        exact congrArg CommandCell.block (if_pos rfl)
      · refine (congrArg (max · _) hown).trans_le ?_
        rw [Command.height, Option.isSome_some, if_pos rfl]
        omega

theorem within_addCommands (ts : List (Command α τ)) {s : Store} {pending : List CommandId}
    (b : BlockId) (h : s.Joined pending) (hpending : ∀ c ∈ pending, c < s.commands.size) :
    ∀ c ∈ (s.addCommands b ts).2, (s.addCommands b ts).1.Within c (Command.heightAll ts) := by
  match ts with
  | [] =>
      rw [addCommands]
      exact fun _ hc => absurd hc List.not_mem_nil
  | t :: ts =>
      have ht := added_command t (some b) h hpending
      have hwait := ht.waiting_lt hpending
      have hts := added_commands ts b ht.joined hwait
      have hwithin := within_addCommand t (some b) h hpending
      rw [addCommands]
      refine List.forall_mem_cons.2 ⟨?_, fun c hc => ?_⟩
      · exact hts.ext.retains.within ht.joined ht.lt (hwithin.mono (Nat.le_max_left _ _))
      · exact (within_addCommands ts b ht.joined hwait c hc).mono (Nat.le_max_right _ _)

end

theorem Retains.shallow {k : ScriptId} (hsame : Retains s s') (h : s.Owned lost)
    (hk : k < s.scripts.size) (hshallow : s.Shallow k limit) : s'.Shallow k limit := by
  intro c hc
  rw [hsame.script k hk, hsame.list _ (lt_of_owner (h.top k hk))] at hc
  exact hsame.within h.toJoined (h.command_lt hc) (hshallow c hc)

theorem shallow_addScript (h : s.Owned lost) (t : Script α τ) :
    (s.addScript t).1.Shallow s.scripts.size (Command.heightAll t.commands) := by
  intro c hc
  rw [(appended_addScript h t).script_new, block_addScript h, if_pos rfl] at hc
  have hwithin := within_addCommands t.commands s.blocks.size (h.toJoined.withTop t) h.lt_of_lost c hc
  have hfilled := (added_withTop h t).within (lt_size_withTop t) (fun e he => ?_) h.lt_of_lost hc hwithin
  · exact hfilled.congr fun _ _ => ⟨rfl, fun _ _ => rfl⟩
  · rw [block_withTop, if_pos rfl] at he
    cases he

end Store

end MailFilter
