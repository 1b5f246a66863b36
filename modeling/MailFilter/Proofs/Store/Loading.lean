import MailFilter.Proofs.Store.Owned
import MailFilter.Store.Load

/-!
# Trees get one owner

A tree that is put into a store takes new cells only.  Its commands wait until the list of their block
is set, and the command that has the block waits longer, so that nothing is above it yet.
-/

namespace MailFilter.Store

open Relation

variable {s s' s'' : Store} {pending lost : List CommandId}

/-! ## Growth -/

/-- A store with more cells.  The old ones are as they were. -/
structure Extends (s s' : Store) : Prop where
  commands : s.commands.size ≤ s'.commands.size
  blocks : s.blocks.size ≤ s'.blocks.size
  command : ∀ c, c < s.commands.size → s'.command c = s.command c
  block : ∀ b, b < s.blocks.size → s'.block b = s.block b
  scripts : s'.scripts = s.scripts

theorem Extends.trans (h : Extends s s') (h' : Extends s' s'') : Extends s s'' := by
  refine ⟨h.commands.trans h'.commands, h.blocks.trans h'.blocks, fun c hc => ?_, fun b hb => ?_,
    h'.scripts.trans h.scripts⟩
  · rw [h'.command c (by have := h.commands; omega), h.command c hc]
  · rw [h'.block b (by have := h.blocks; omega), h.block b hb]

/-- A store in which the commands, lists and scripts of another one are as they were there. -/
structure Retains (s s' : Store) : Prop where
  command : ∀ c, c < s.commands.size → s'.command c = s.command c
  list : ∀ b, b < s.blocks.size → (s'.block b).commands = (s.block b).commands
  script : ∀ k, k < s.scripts.size → s'.script k = s.script k

theorem Extends.retains (h : Extends s s') : Retains s s' :=
  ⟨h.command, fun b hb => congrArg BlockCell.commands (h.block b hb),
    fun k _ => script_congr h.scripts k⟩

/-- New commands wait, and new blocks are empty. -/
theorem Joined.extend (h : s.Joined pending) {waiting : List CommandId} (hext : Extends s s')
    (hempty : ∀ b, s.blocks.size ≤ b → (s'.block b).commands = [])
    (hold : ∀ c, c < s.commands.size → (c ∈ waiting ↔ c ∈ pending))
    (hnew : ∀ c b, s.commands.size ≤ c → (s'.command c).parent = some b → c ∈ waiting)
    (hown : ∀ c b, s.commands.size ≤ c → (s'.command c).block = some b →
      s.blocks.size ≤ b ∧ (s'.block b).owner = some (.command c)) : s'.Joined waiting := by
  have hlist : ∀ b, (s'.block b).commands = (s.block b).commands := by
    intro b
    rcases Nat.lt_or_ge b s.blocks.size with hb | hb
    · rw [hext.block b hb]
    · rw [hempty b hb, block_of_size_le hb]
      rfl
  refine ⟨fun b => ?_, fun c b => ?_, fun c b hb => ?_, fun k hk => ?_, fun c hc => ?_⟩
  · rw [hlist]
    exact h.nodup b
  · rw [hlist, h.listed]
    rcases Nat.lt_or_ge c s.commands.size with hc | hc
    · rw [hext.command c hc, hold c hc]
    · rw [command_of_size_le hc]
      constructor
      · rintro ⟨hparent, -⟩
        cases hparent
      · rintro ⟨hparent, hwaiting⟩
        exact absurd (hnew c b hc hparent) hwaiting
  · rcases Nat.lt_or_ge c s.commands.size with hc | hc
    · rw [hext.command c hc] at hb
      rw [hext.block b (h.block_lt hb)]
      exact h.own c b hb
    · exact (hown c b hc hb).2
  · rw [hext.scripts] at hk
    have htop := h.top k hk
    rw [script_congr hext.scripts, hext.block _ (lt_of_owner htop)]
    exact htop
  · refine h.acyclic c (TransGen.mono (fun x y hxy => ?_) c c hc)
    obtain ⟨b, hb, hx⟩ := hxy
    rw [hlist] at hx
    rcases Nat.lt_or_ge y s.commands.size with hy | hy
    · exact ⟨b, hext.command y hy ▸ hb, hx⟩
    · exact absurd (lt_of_mem hx) (Nat.not_lt.2 (hown y b hy hb).1)

theorem acyclic_of_top {γ : Type} {r r' : γ → γ → Prop} (hr : ∀ x, ¬ TransGen r x x)
    (hsub : ∀ x y, r' x y → r x y ∨ ∀ z, ¬ r' y z) : ∀ x, ¬ TransGen r' x x := by
  have hpath : ∀ x y, TransGen r' x y → TransGen r x y ∨ ∀ z, ¬ r' y z := by
    intro x y hxy
    induction hxy with
    | single hxy => exact (hsub _ _ hxy).imp_left .single
    | tail _ hyz ih =>
        rcases ih with hxy | htop
        · exact (hsub _ _ hyz).imp_left hxy.tail
        · exact absurd hyz (htop _)
  intro x hx
  rcases hpath x x hx with hold | htop
  · exact hr x hold
  · obtain ⟨y, hy, -⟩ := TransGen.head'_iff.1 hx
    exact htop y hy

/-- A block gets its list once all commands in it are there. -/
theorem Joined.fill {ids : List CommandId} (h : s.Joined (ids ++ pending)) {b : BlockId}
    (hb : b < s.blocks.size) (hempty : (s.block b).commands = []) (hnodup : ids.Nodup)
    (hparent : ∀ c ∈ ids, (s.command c).parent = some b) (hfresh : ∀ c ∈ ids, c ∉ pending)
    (howner : ∀ c, (s.block b).owner = some (.command c) → c ∈ pending) :
    (s.modifyBlock b ({ · with commands := ids })).Joined pending := by
  have hblock : ∀ d, (s.modifyBlock b ({ · with commands := ids })).block d =
      if d = b then { s.block d with commands := ids } else s.block d :=
    fun d => block_modifyBlock s b d _ hb
  have hkeep : ∀ d, ((s.modifyBlock b ({ · with commands := ids })).block d).owner =
      (s.block d).owner := by
    intro d
    rw [hblock]
    split <;> rfl
  have hlisted : ∀ c d, c ∈ ((s.modifyBlock b ({ · with commands := ids })).block d).commands ↔
      (s.command c).parent = some d ∧ c ∉ pending := by
    intro c d
    have hold := h.listed c d
    rw [List.mem_append, not_or] at hold
    rw [hblock]
    split
    · next hd =>
        subst hd
        rw [hempty] at hold
        refine ⟨fun hc => ⟨hparent c hc, hfresh c hc⟩, fun ⟨hc, hwait⟩ => ?_⟩
        by_contra hnot
        exact List.not_mem_nil (hold.2 ⟨hc, hnot, hwait⟩)
    · next hd =>
        rw [hold]
        refine ⟨fun ⟨hc, _, hwait⟩ => ⟨hc, hwait⟩, fun ⟨hc, hwait⟩ => ⟨hc, fun hmem => ?_, hwait⟩⟩
        exact hd (Option.some.inj (hc.symm.trans (hparent c hmem)))
  refine ⟨fun d => ?_, hlisted, fun c d hd => ?_, fun k hk => ?_, ?_⟩
  · rw [hblock]
    split
    · exact hnodup
    · exact h.nodup d
  · rw [hkeep]
    exact h.own c d hd
  · rw [hkeep]
    exact h.top k hk
  · refine acyclic_of_top h.acyclic fun x y hxy => ?_
    obtain ⟨d, hd, hx⟩ := hxy
    by_cases hdb : d = b
    · -- The command that has the block waits, so no block lists it yet and nothing is above it.
      subst hdb
      refine .inr fun z hz => ?_
      obtain ⟨e, -, hy⟩ := hz
      exact ((hlisted y e).1 hy).2 (howner y (h.own y d hd))
    · rw [hblock, if_neg hdb] at hx
      exact .inl ⟨d, hd, hx⟩

theorem Joined.settle {c : CommandId} (h : s.Joined (c :: pending))
    (hparent : (s.command c).parent = none) : s.Joined pending := by
  refine ⟨h.nodup, fun d b => ?_, h.own, h.top, h.acyclic⟩
  rw [h.listed, List.mem_cons, not_or]
  refine ⟨fun ⟨hd, _, hwait⟩ => ⟨hd, hwait⟩, fun ⟨hd, hwait⟩ => ⟨hd, ?_, hwait⟩⟩
  rintro rfl
  rw [hparent] at hd
  cases hd

/-! ## New cells -/

theorem command_push {cell : CommandCell} (hpush : s'.commands = s.commands.push cell)
    (c : CommandId) : s'.command c = if c = s.commands.size then cell else s.command c := by
  rw [command, hpush, Array.getD_eq_getD_getElem?, Array.getElem?_push, command,
    Array.getD_eq_getD_getElem?]
  split <;> rfl

theorem block_push {cell : BlockCell} (hpush : s'.blocks = s.blocks.push cell) (b : BlockId) :
    s'.block b = if b = s.blocks.size then cell else s.block b := by
  rw [block, hpush, Array.getD_eq_getD_getElem?, Array.getElem?_push, block,
    Array.getD_eq_getD_getElem?]
  split <;> rfl

theorem extends_push {cell : CommandCell} (hcommands : s'.commands = s.commands.push cell)
    (hblocks : s'.blocks = s.blocks ∨ ∃ cell, s'.blocks = s.blocks.push cell)
    (hscripts : s'.scripts = s.scripts) : Extends s s' := by
  refine ⟨?_, ?_, fun c hc => ?_, fun b hb => ?_, hscripts⟩
  · rw [hcommands, Array.size_push]
    exact Nat.le_succ _
  · rcases hblocks with hsame | ⟨cell, hpush⟩
    · rw [hsame]
    · rw [hpush, Array.size_push]
      exact Nat.le_succ _
  · rw [command_push hcommands, if_neg (Nat.ne_of_lt hc)]
  · rcases hblocks with hsame | ⟨cell, hpush⟩
    · rw [block, hsame, block]
    · rw [block_push hpush, if_neg (Nat.ne_of_lt hb)]

theorem Joined.push (h : s.Joined pending) {cell : CommandCell}
    (hcommands : s'.commands = s.commands.push cell)
    (hblocks : s'.blocks = s.blocks ∨ ∃ cell, s'.blocks = s.blocks.push cell)
    (hscripts : s'.scripts = s.scripts)
    (hempty : ∀ b, s.blocks.size ≤ b → (s'.block b).commands = [])
    (hcell : ∀ b, cell.block = some b →
      s.blocks.size ≤ b ∧ (s'.block b).owner = some (.command s.commands.size)) :
    s'.Joined (s.commands.size :: pending) := by
  refine h.extend (extends_push hcommands hblocks hscripts) hempty (fun c hc => ?_)
    (fun c b hc hparent => ?_) (fun c b hc hb => ?_)
  · rw [List.mem_cons, or_iff_right (Nat.ne_of_lt hc)]
  · rw [command_push hcommands] at hparent
    split at hparent
    · next hsize =>
        rw [hsize]
        exact List.mem_cons_self
    · rw [command_of_size_le hc] at hparent
      cases hparent
  · rw [command_push hcommands] at hb
    split at hb
    · next hsize =>
        rw [hsize]
        exact hcell b hb
    · rw [command_of_size_le hc] at hb
      cases hb

/-! ## Trees -/

/-- A command that has been added with all that is below it, but is not listed. -/
structure Added (s s' : Store) (parent : Option BlockId) (pending : List CommandId)
    (c : CommandId) : Prop where
  ext : Extends s s'
  joined : s'.Joined (c :: pending)
  fresh : s.commands.size ≤ c
  lt : c < s'.commands.size
  parent : (s'.command c).parent = parent

/-- Commands that have been added, but are not listed. -/
structure AddedAll (s s' : Store) (b : BlockId) (pending ids : List CommandId) : Prop where
  ext : Extends s s'
  joined : s'.Joined (ids ++ pending)
  nodup : ids.Nodup
  fresh : ∀ c ∈ ids, s.commands.size ≤ c
  lt : ∀ c ∈ ids, c < s'.commands.size
  parent : ∀ c ∈ ids, (s'.command c).parent = some b

section Trees

variable {α τ : Type} [Located α] [Leaf τ]

theorem Added.waiting_lt {parent : Option BlockId} {c : CommandId} (hc : Added s s' parent pending c)
    (hpending : ∀ d ∈ pending, d < s.commands.size) : ∀ d ∈ c :: pending, d < s'.commands.size :=
  List.forall_mem_cons.2 ⟨hc.lt, fun d hd => (hpending d hd).trans_le hc.ext.commands⟩

theorem AddedAll.nil {b : BlockId} (h : s.Joined pending) : AddedAll s s b pending [] :=
  ⟨⟨Nat.le_refl _, Nat.le_refl _, fun _ _ => rfl, fun _ _ => rfl, rfl⟩, h, .nil,
    by simp, by simp, by simp⟩

theorem AddedAll.cons {b : BlockId} {c : CommandId} {ids : List CommandId}
    (hc : Added s s' (some b) pending c) (hids : AddedAll s' s'' b (c :: pending) ids) :
    AddedAll s s'' b pending (c :: ids) := by
  have hsize := hc.ext.commands
  refine ⟨hc.ext.trans hids.ext, ?_, ?_, ?_, ?_, ?_⟩
  · refine hids.joined.congr fun d => ?_
    simp only [List.mem_append, List.mem_cons]
    tauto
  · refine List.nodup_cons.2 ⟨fun hmem => ?_, hids.nodup⟩
    exact Nat.lt_irrefl _ (Nat.lt_of_lt_of_le hc.lt (hids.fresh c hmem))
  · intro d hd
    rcases List.mem_cons.1 hd with rfl | hd
    · exact hc.fresh
    · exact hsize.trans (hids.fresh d hd)
  · intro d hd
    rcases List.mem_cons.1 hd with rfl | hd
    · exact Nat.lt_of_lt_of_le hc.lt hids.ext.commands
    · exact hids.lt d hd
  · intro d hd
    rcases List.mem_cons.1 hd with rfl | hd
    · rw [hids.ext.command d hc.lt]
      exact hc.parent
    · exact hids.parent d hd

theorem added_simple (h : s.Joined pending) (parent : Option BlockId) (head : Head α τ) :
    Added s (s.addCell parent head none).1 parent pending (s.addCell parent head none).2 := by
  have hpush : (s.addCell parent head none).1.commands = s.commands.push ⟨_, none, parent⟩ := rfl
  refine ⟨extends_push hpush (.inl rfl) rfl, h.push hpush (.inl rfl) rfl ?_ ?_, Nat.le_refl _, ?_, ?_⟩
  · intro b hb
    exact congrArg BlockCell.commands (block_of_size_le hb)
  · intro b hb
    cases hb
  · rw [hpush, Array.size_push]
    exact Nat.lt_succ_self _
  · rw [command_push hpush]
    exact congrArg CommandCell.parent (if_pos rfl)

theorem added_open (h : s.Joined pending) (parent : Option BlockId) (head : Head α τ)
    (trailing : List (Comment Value)) (opening : Pos) :
    Added s ((s.addCell parent head (some s.blocks.size)).1.pushBlock
      ⟨[], trailing, opening, some (.command s.commands.size)⟩).1 parent pending s.commands.size := by
  set opened := ((s.addCell parent head (some s.blocks.size)).1.pushBlock
    ⟨[], trailing, opening, some (.command s.commands.size)⟩).1
  have hcommands : opened.commands = s.commands.push ⟨_, some s.blocks.size, parent⟩ := rfl
  have hblocks : opened.blocks =
      s.blocks.push ⟨[], trailing, opening, some (.command s.commands.size)⟩ := rfl
  refine ⟨extends_push hcommands (.inr ⟨_, hblocks⟩) rfl,
    h.push hcommands (.inr ⟨_, hblocks⟩) rfl ?_ ?_, Nat.le_refl _, ?_, ?_⟩
  · intro b hb
    rw [block_push hblocks]
    split
    · rfl
    · rw [block_of_size_le hb]
      rfl
  · intro b hb
    cases hb
    rw [block_push hblocks, if_pos rfl]
    exact ⟨Nat.le_refl _, rfl⟩
  · rw [hcommands, Array.size_push]
    exact Nat.lt_succ_self _
  · rw [command_push hcommands]
    exact congrArg CommandCell.parent (if_pos rfl)

theorem Added.close {parent : Option BlockId} {b : BlockId} {c : CommandId} {ids : List CommandId}
    (hopen : Added s s' parent pending c) (hids : AddedAll s' s'' b (c :: pending) ids)
    (hpending : ∀ d ∈ pending, d < s.commands.size) (hold : s.blocks.size ≤ b)
    (hb : b < s'.blocks.size) (hempty : (s'.block b).commands = [])
    (howner : (s'.block b).owner = some (.command c)) :
    Added s (s''.modifyBlock b ({ · with commands := ids })) parent pending c := by
  have hb' : b < s''.blocks.size := Nat.lt_of_lt_of_le hb hids.ext.blocks
  have hext := hopen.ext.trans hids.ext
  refine ⟨⟨hext.commands, ?_, hext.command, fun d hd => ?_, hext.scripts⟩, ?_, hopen.fresh,
    Nat.lt_of_lt_of_le hopen.lt hids.ext.commands, ?_⟩
  · rw [modifyBlock, Array.size_modify]
    exact hext.blocks
  · rw [block_modifyBlock _ _ _ _ hb', if_neg (Nat.ne_of_lt (hd.trans_le hold))]
    exact hext.block d hd
  · refine hids.joined.fill hb' ?_ hids.nodup hids.parent (fun d hd hmem => ?_) fun d hd => ?_
    · rw [hids.ext.block b hb]
      exact hempty
    · have hfresh := hids.fresh d hd
      rcases List.mem_cons.1 hmem with rfl | hmem
      · exact Nat.lt_irrefl _ (Nat.lt_of_lt_of_le hopen.lt hfresh)
      · exact Nat.not_lt.2 (hopen.ext.commands.trans hfresh) (hpending d hmem)
    · rw [hids.ext.block b hb, howner] at hd
      cases hd
      exact List.mem_cons_self
  · rw [command_modifyBlock, hids.ext.command c hopen.lt]
    exact hopen.parent

mutual

theorem added_command (t : Command α τ) {s : Store} {pending : List CommandId}
    (parent : Option BlockId) (h : s.Joined pending) (hpending : ∀ c ∈ pending, c < s.commands.size) :
    Added s (s.addCommand parent t).1 parent pending (s.addCommand parent t).2 := by
  match t with
  | .simple head =>
      rw [addCommand]
      exact added_simple h parent head
  | .control head cs trailing opening =>
      have hopen := added_open h parent head (trailing.map (·.map Leaf.value)) opening
      have hids := added_commands cs s.blocks.size hopen.joined (hopen.waiting_lt hpending)
      rw [addCommand]
      refine hopen.close hids hpending (Nat.le_refl _) ?_ ?_ ?_
      · exact Array.size_push _ ▸ Nat.lt_succ_self _
      · rw [block_push rfl]
        exact congrArg BlockCell.commands (if_pos rfl)
      · rw [block_push rfl]
        exact congrArg BlockCell.owner (if_pos rfl)

theorem added_commands (ts : List (Command α τ)) {s : Store} {pending : List CommandId}
    (b : BlockId) (h : s.Joined pending) (hpending : ∀ c ∈ pending, c < s.commands.size) :
    AddedAll s (s.addCommands b ts).1 b pending (s.addCommands b ts).2 := by
  match ts with
  | [] =>
      rw [addCommands]
      exact .nil h
  | t :: ts =>
      have ht := added_command t (some b) h hpending
      have hts := added_commands ts b ht.joined (ht.waiting_lt hpending)
      rw [addCommands]
      exact .cons ht hts

end

theorem Owned.of_extends (h : s.Owned lost) (hext : Extends s s') (hlinked : s'.Joined lost) :
    s'.Owned lost := by
  refine ⟨hlinked, fun c hc => ?_⟩
  rw [hext.command c (h.lt_of_lost c hc)]
  exact h.named c hc

theorem owned_addCommand (h : s.Owned lost) (t : Command α τ) : (s.addCommand none t).1.Owned lost := by
  have hadded := added_command t none h.toJoined h.lt_of_lost
  exact h.of_extends hadded.ext (hadded.joined.settle hadded.parent)

end Trees

/-! ## Scripts -/

theorem owned_empty : empty.Owned [] := by
  have hblock : ∀ b, empty.block b = default := fun b => block_of_size_le (Nat.zero_le b)
  have hcommand : ∀ c, empty.command c = default := fun c => command_of_size_le (Nat.zero_le c)
  have hbelow : ∀ c d, ¬ empty.Below c d := by
    rintro c d ⟨b, hb, -⟩
    rw [hcommand] at hb
    cases hb
  refine ⟨⟨fun b => ?_, fun c b => ?_, fun c b hb => ?_, fun k hk => ?_, fun c hc => ?_⟩, by simp⟩
  · rw [hblock]
    exact .nil
  · rw [hblock, hcommand]
    simp [default]
  · rw [hcommand] at hb
    cases hb
  · cases hk
  · obtain ⟨d, hd, -⟩ := TransGen.head'_iff.1 hc
    exact hbelow c d hd

theorem Joined.pushBlock (h : s.Joined lost) (cell : BlockCell) (hempty : cell.commands = []) :
    (s.pushBlock cell).1.Joined lost := by
  have hpush : (s.pushBlock cell).1.blocks = s.blocks.push cell := rfl
  refine h.extend ⟨Nat.le_refl _, ?_, fun _ _ => rfl, fun b hb => ?_, rfl⟩ (fun b hb => ?_)
    (fun _ _ => Iff.rfl) (fun c b hc hparent => ?_) (fun c b hc hb => ?_)
  · rw [hpush, Array.size_push]
    exact Nat.le_succ _
  · rw [block_push hpush, if_neg (Nat.ne_of_lt hb)]
  · rw [block_push hpush]
    split
    · exact hempty
    · rw [block_of_size_le hb]
      rfl
  · exact absurd (lt_of_parent (s := s) hparent) (Nat.not_lt.2 hc)
  · exact absurd (lt_of_block (s := s) hb) (Nat.not_lt.2 hc)

theorem Joined.pushScript (h : s.Joined lost) {cell : ScriptCell}
    (howner : (s.block cell.block).owner = some (.script s.scripts.size)) :
    ({ s with scripts := s.scripts.push cell } : Store).Joined lost := by
  refine ⟨h.nodup, h.listed, h.own, fun k hk => ?_, h.acyclic⟩
  have hscript : ({ s with scripts := s.scripts.push cell } : Store).script k =
      if k = s.scripts.size then cell else s.script k := by
    rw [script, Array.getD_eq_getD_getElem?, Array.getElem?_push, script,
      Array.getD_eq_getD_getElem?]
    split <;> rfl
  rw [hscript]
  split
  · next hsize =>
      rw [hsize]
      exact howner
  · next hsize =>
      rw [Array.size_push] at hk
      exact h.top k (by omega)

section Scripts

variable {α τ : Type} [Leaf τ]

def withTop (s : Store) (t : Script α τ) : Store :=
  (s.pushBlock
    ⟨[], t.block.trailing.map (·.map Leaf.value), t.block.pos, some (.script s.scripts.size)⟩).1

theorem lt_size_withTop (t : Script α τ) : s.blocks.size < (s.withTop t).blocks.size :=
  Array.size_push _ ▸ Nat.lt_succ_self _

theorem block_withTop (t : Script α τ) (b : BlockId) : (s.withTop t).block b =
    if b = s.blocks.size then
      ⟨[], t.block.trailing.map (·.map Leaf.value), t.block.pos, some (.script s.scripts.size)⟩
    else s.block b :=
  block_push rfl b

theorem Joined.withTop (h : s.Joined lost) (t : Script α τ) : (s.withTop t).Joined lost :=
  h.pushBlock _ rfl

variable [Located α]

theorem added_withTop (h : s.Owned lost) (t : Script α τ) :
    AddedAll (s.withTop t) ((s.withTop t).addCommands s.blocks.size t.commands).1 s.blocks.size lost
      ((s.withTop t).addCommands s.blocks.size t.commands).2 :=
  added_commands t.commands s.blocks.size (h.toJoined.withTop t) h.lt_of_lost

theorem lt_withTop (h : s.Owned lost) (t : Script α τ) :
    s.blocks.size < ((s.withTop t).addCommands s.blocks.size t.commands).1.blocks.size :=
  (lt_size_withTop t).trans_le (added_withTop h t).ext.blocks

theorem block_addScript (h : s.Owned lost) (t : Script α τ) (b : BlockId) :
    (s.addScript t).1.block b = if b = s.blocks.size then
      { ((s.withTop t).addCommands s.blocks.size t.commands).1.block b with
        commands := ((s.withTop t).addCommands s.blocks.size t.commands).2 }
      else ((s.withTop t).addCommands s.blocks.size t.commands).1.block b :=
  block_modifyBlock _ _ b _ (lt_withTop h t)

/-- A script and all commands in it have one owner. -/
theorem owned_addScript (h : s.Owned lost) (t : Script α τ) : (s.addScript t).1.Owned lost := by
  have hids := added_withTop h t
  have hblock := hids.ext.block s.blocks.size (lt_size_withTop t)
  rw [block_withTop, if_pos rfl] at hblock
  have hfresh : ∀ c ∈ ((s.withTop t).addCommands s.blocks.size t.commands).2, c ∉ lost := fun c hc hlost =>
    Nat.not_lt.2 (hids.fresh c hc) (h.lt_of_lost c hlost)
  have hfill := hids.joined.fill (lt_withTop h t) (by rw [hblock]) hids.nodup hids.parent hfresh
    (fun c hc => by rw [hblock] at hc; cases hc)
  refine ⟨hfill.pushScript ?_, fun c hc => ?_⟩
  · rw [block_modifyBlock _ _ _ _ (lt_withTop h t), if_pos rfl, hblock]
    exact congrArg (fun scripts => some (Owner.script scripts.size)) hids.ext.scripts.symm
  · have hcommand := hids.ext.command c (h.lt_of_lost c hc)
    exact (congrArg CommandCell.parent hcommand).trans_ne (h.named c hc)

end Scripts

end MailFilter.Store
