import MailFilter.Proofs.Store.Owned
import MailFilter.Store.Edit

/-!
# Edits keep one owner

An operation that succeeds puts one command elsewhere, or takes it out, or changes nothing that has an
owner.  A command goes into a block only if that block is not inside it, so no cycle closes.
-/

namespace MailFilter.Store

open Relation

variable {s s' : Store} {lost : List CommandId}

/-! ## Putting a command elsewhere -/

/-- New edges from one node close no cycle if no target of theirs is below that node. -/
theorem acyclic_of_edges {γ : Type} {r r' : γ → γ → Prop} {c : γ} {targets : γ → Prop}
    (hr : ∀ x, ¬ TransGen r x x) (hsub : ∀ x y, r' x y → r x y ∨ x = c ∧ targets y)
    (hfree : ∀ e, targets e → ¬ ReflTransGen r e c) : ∀ x, ¬ TransGen r' x x := by
  -- A path with new edges enters the first of them at `c` and leaves the last one at a target.
  have hpath : ∀ x y, TransGen r' x y →
      TransGen r x y ∨ ∃ e, targets e ∧ ReflTransGen r x c ∧ ReflTransGen r e y := by
    intro x y hxy
    induction hxy with
    | @single y hxy =>
        rcases hsub x y hxy with hold | ⟨rfl, htarget⟩
        · exact .inl (.single hold)
        · exact .inr ⟨y, htarget, .refl, .refl⟩
    | @tail y z _ hyz ih =>
        rcases hsub y z hyz with hold | ⟨rfl, htarget⟩
        · rcases ih with hxy | ⟨e, he, hxc, hey⟩
          · exact .inl (hxy.tail hold)
          · exact .inr ⟨e, he, hxc, hey.tail hold⟩
        · rcases ih with hxy | ⟨e, he, -, hec⟩
          · exact .inr ⟨z, htarget, hxy.to_reflTransGen, .refl⟩
          · exact absurd hec (hfree e he)
  intro x hx
  rcases hpath x x hx with hold | ⟨e, he, hxc, hex⟩
  · exact hr x hold
  · exact hfree e he (hex.trans hxc)

/-- A store in which one command has another place, or none. -/
structure Relocated (s s' : Store) (c : CommandId) (place : Option BlockId) : Prop where
  block : ∀ d, (s'.command d).block = (s.command d).block
  parent : ∀ d, (s'.command d).parent = if d = c then place else (s.command d).parent
  owner : ∀ b, (s'.block b).owner = (s.block b).owner
  nodup : ∀ b, (s'.block b).commands.Nodup
  listed : ∀ d b, d ∈ (s'.block b).commands ↔
    if d = c then place = some b else d ∈ (s.block b).commands
  scripts : s'.scripts = s.scripts

theorem Relocated.script {c : CommandId} {place : Option BlockId} (hmove : Relocated s s' c place)
    (k : ScriptId) : s'.script k = s.script k :=
  script_congr hmove.scripts k

theorem Joined.relocate (h : s.Joined lost) {c : CommandId} {place : Option BlockId}
    (hmove : Relocated s s' c place)
    (hfree : ∀ b, place = some b → ∀ e, (s.command e).block = some b → ¬ ReflTransGen s.Below e c) :
    s'.Joined (lost.filter (· ≠ c)) := by
  refine ⟨hmove.nodup, fun d b => ?_, fun d b hb => ?_, fun k hk => ?_, ?_⟩
  · rw [hmove.listed, hmove.parent]
    split
    · next hdc => simp [hdc]
    · next hdc => simpa [hdc] using h.listed d b
  · rw [hmove.block] at hb
    rw [hmove.owner]
    exact h.own d b hb
  · rw [hmove.scripts] at hk
    rw [hmove.script, hmove.owner]
    exact h.top k hk
  · have hedges : ∀ x y, s'.Below x y →
        s.Below x y ∨ x = c ∧ ∃ b, place = some b ∧ (s.command y).block = some b := by
      rintro x y ⟨b, hb, hx⟩
      rw [hmove.block] at hb
      rw [hmove.listed] at hx
      split at hx
      · next hxc => exact .inr ⟨hxc, b, hx, hb⟩
      · exact .inl ⟨b, hb, hx⟩
    exact acyclic_of_edges h.acyclic hedges fun e ⟨b, hplace, hb⟩ => hfree b hplace e hb

theorem Owned.relocate (h : s.Owned lost) {c : CommandId} {place : Option BlockId}
    (hmove : Relocated s s' c place) (hc : c ∉ lost)
    (hfree : ∀ b, place = some b → ∀ e, (s.command e).block = some b → ¬ ReflTransGen s.Below e c) :
    s'.Owned lost := by
  have hne : ∀ d ∈ lost, d ≠ c := fun d hd => ne_of_mem_of_not_mem hd hc
  refine ⟨(h.toJoined.relocate hmove hfree).congr fun d => ?_, fun d hd => ?_⟩
  · simpa using hne d
  · rw [hmove.parent, if_neg (hne d hd)]
    exact h.named d hd

/-- A store that differs in nothing that has an owner. -/
structure SameLinks (s s' : Store) : Prop where
  block : ∀ d, (s'.command d).block = (s.command d).block
  parent : ∀ d, (s'.command d).parent = (s.command d).parent
  owner : ∀ b, (s'.block b).owner = (s.block b).owner
  listed : ∀ b, (s'.block b).commands = (s.block b).commands
  size : s'.scripts.size = s.scripts.size
  top : ∀ k, (s'.script k).block = (s.script k).block

theorem SameLinks.refl : SameLinks s s :=
  ⟨fun _ => rfl, fun _ => rfl, fun _ => rfl, fun _ => rfl, rfl, fun _ => rfl⟩

theorem SameLinks.symm (hsame : SameLinks s s') : SameLinks s' s :=
  ⟨fun d => (hsame.block d).symm, fun d => (hsame.parent d).symm, fun b => (hsame.owner b).symm,
    fun b => (hsame.listed b).symm, hsame.size.symm, fun k => (hsame.top k).symm⟩

theorem Relocated.sameLinks {s'' : Store} {c : CommandId} {place : Option BlockId}
    (hmove : Relocated s s' c place) (hsame : SameLinks s' s'') (hscripts : s''.scripts = s'.scripts) :
    Relocated s s'' c place := by
  refine ⟨fun d => (hsame.block d).trans (hmove.block d),
    fun d => (hsame.parent d).trans (hmove.parent d), fun b => (hsame.owner b).trans (hmove.owner b),
    fun b => ?_, fun d b => ?_, hscripts.trans hmove.scripts⟩
  · rw [hsame.listed]
    exact hmove.nodup b
  · rw [hsame.listed]
    exact hmove.listed d b

theorem Owned.sameLinks (h : s.Owned lost) (hsame : SameLinks s s') : s'.Owned lost := by
  refine ⟨⟨fun b => ?_, fun d b => ?_, fun d b hb => ?_, fun k hk => ?_, fun d hd => ?_⟩,
    fun d hd => ?_⟩
  · rw [hsame.listed]
    exact h.nodup b
  · rw [hsame.listed, hsame.parent]
    exact h.listed d b
  · rw [hsame.block] at hb
    rw [hsame.owner]
    exact h.own d b hb
  · rw [hsame.size] at hk
    rw [hsame.top, hsame.owner]
    exact h.top k hk
  · refine h.acyclic d (TransGen.mono (fun x y hxy => ?_) d d hd)
    obtain ⟨b, hb, hx⟩ := hxy
    exact ⟨b, hsame.block y ▸ hb, hsame.listed b ▸ hx⟩
  · rw [hsame.parent]
    exact h.named d hd

/-! ## Changes to single cells -/

section Cells

variable {γ : Type} {cells : Array γ} {i : Nat} {f : γ → γ}

theorem keep_modify [Inhabited γ] {δ : Type} {g : γ → δ} (hkeep : ∀ cell, g (f cell) = g cell)
    (j : Nat) : g ((cells.modify i f).getD j default) = g (cells.getD j default) := by
  rw [Array.getD_eq_getD_getElem?, Array.getD_eq_getD_getElem?, Array.getElem?_modify]
  split
  · cases cells[j]? with
    | none => rfl
    | some cell => exact hkeep cell
  · rfl

theorem modify_modify {g : γ → γ} : (cells.modify i f).modify i g = cells.modify i (g ∘ f) := by
  refine Array.ext_getElem? fun j => ?_
  simp only [Array.getElem?_modify]
  split
  · rw [Option.map_map]
  · rfl

theorem modify_eq_self [Inhabited γ] (hf : f (cells.getD i default) = cells.getD i default) :
    cells.modify i f = cells := by
  refine Array.ext_getElem? fun j => ?_
  rw [Array.getElem?_modify]
  split
  · next hij =>
      subst hij
      cases hcell : cells[i]? with
      | none => rfl
      | some cell =>
          rw [Array.getD_eq_getD_getElem?, hcell] at hf
          exact congrArg some hf
  · rfl

end Cells

section Commands

variable {f : CommandCell → CommandCell}

theorem command_modifyCommand_of_ne {c d : CommandId} (f : CommandCell → CommandCell) (hne : d ≠ c) :
    (s.modifyCommand c f).command d = s.command d := by
  simp only [command, modifyCommand, Array.getD_eq_getD_getElem?, Array.getElem?_modify,
    if_neg (Ne.symm hne)]

theorem keep_modifyCommand {γ : Type} {g : CommandCell → γ} (hkeep : ∀ cell, g (f cell) = g cell)
    (c d : CommandId) : g ((s.modifyCommand c f).command d) = g (s.command d) :=
  keep_modify hkeep d

theorem modifyCommand_modifyCommand {c : CommandId} {g : CommandCell → CommandCell} :
    (s.modifyCommand c f).modifyCommand c g = s.modifyCommand c (g ∘ f) :=
  congrArg (fun commands => { s with commands }) modify_modify

theorem modifyCommand_eq_self {c : CommandId} (hf : f (s.command c) = s.command c) :
    s.modifyCommand c f = s :=
  congrArg (fun commands => { s with commands }) (modify_eq_self hf)

theorem head_modifyParent (c : CommandId) (place : Option BlockId) (d : CommandId) :
    ((s.modifyCommand c ({ · with parent := place })).command d).head = (s.command d).head :=
  keep_modifyCommand (f := ({ · with parent := place })) (g := CommandCell.head) (fun _ => rfl) c d

theorem blockOf_modifyParent (c : CommandId) (place : Option BlockId) (d : CommandId) :
    ((s.modifyCommand c ({ · with parent := place })).command d).block = (s.command d).block :=
  keep_modifyCommand (f := ({ · with parent := place })) (g := CommandCell.block) (fun _ => rfl) c d

theorem parent_modifyParent {c : CommandId} (hc : c < s.commands.size) (place : Option BlockId)
    (d : CommandId) : ((s.modifyCommand c ({ · with parent := place })).command d).parent =
      if d = c then place else (s.command d).parent := by
  rw [command_modifyCommand s c d _ hc]
  split <;> rfl

end Commands

section Blocks

variable {f : BlockCell → BlockCell}

theorem block_modifyBlock_of_ne {b d : BlockId} (f : BlockCell → BlockCell) (hne : d ≠ b) :
    (s.modifyBlock b f).block d = s.block d := by
  simp only [block, modifyBlock, Array.getD_eq_getD_getElem?, Array.getElem?_modify,
    if_neg (Ne.symm hne)]

theorem keep_modifyBlock {γ : Type} {g : BlockCell → γ} (hkeep : ∀ cell, g (f cell) = g cell)
    (b d : BlockId) : g ((s.modifyBlock b f).block d) = g (s.block d) :=
  keep_modify hkeep d

theorem modifyBlock_modifyBlock {b : BlockId} {g : BlockCell → BlockCell} :
    (s.modifyBlock b f).modifyBlock b g = s.modifyBlock b (g ∘ f) :=
  congrArg (fun blocks => { s with blocks }) modify_modify

theorem modifyBlock_eq_self {b : BlockId} (hf : f (s.block b) = s.block b) : s.modifyBlock b f = s :=
  congrArg (fun blocks => { s with blocks }) (modify_eq_self hf)

theorem commands_modifyOwner (own : BlockId) (o : Owner) (d : BlockId) :
    ((s.modifyBlock own ({ · with owner := some o })).block d).commands = (s.block d).commands :=
  keep_modifyBlock (f := ({ · with owner := some o })) (g := BlockCell.commands) (fun _ => rfl) own d

end Blocks

theorem keep_modifyScript {γ : Type} {g : ScriptCell → γ} {f : ScriptCell → ScriptCell}
    (hkeep : ∀ cell, g (f cell) = g cell) (k j : ScriptId) :
    g ((s.modifyScript k f).script j) = g (s.script j) :=
  keep_modify hkeep j

/-! ## Lists of blocks -/

theorem holdsBlock_of_below (h : s.Owned lost) {c e : CommandId} {b : BlockId}
    (hc : c < s.commands.size) (hb : (s.command e).block = some b) (he : ReflTransGen s.Below e c) :
    s.holdsBlock c b = true := by
  rw [holdsBlock, List.any_eq_true]
  exact ⟨e, (h.mem_walk hc).2 he, by simpa using hb⟩

theorem owner_list {c : CommandId} (b : BlockId) (i : Nat) (d : BlockId) :
    ((s.list b i c).block d).owner = (s.block d).owner :=
  keep_modifyBlock (g := BlockCell.owner)
    (f := fun cell => { cell with commands := cell.commands.insertIdx i c }) (fun _ => rfl) b d

theorem owner_unlist {c : CommandId} (b d : BlockId) :
    ((s.unlist b c).block d).owner = (s.block d).owner :=
  keep_modifyBlock (g := BlockCell.owner)
    (f := fun cell => { cell with commands := cell.commands.erase c }) (fun _ => rfl) b d

theorem mem_insertIdx {ids : List CommandId} {i : Nat} {c d : CommandId} (hi : i ≤ ids.length) :
    d ∈ ids.insertIdx i c ↔ d = c ∨ d ∈ ids := by
  rw [(List.perm_insertIdx c ids hi).mem_iff, List.mem_cons]

theorem command_list {c : CommandId} {b : BlockId} {i : Nat} (hc : c < s.commands.size)
    (d : CommandId) : (s.list b i c).command d =
      if d = c then { s.command d with parent := some b } else s.command d :=
  command_modifyCommand _ c d _ hc

theorem block_list {c : CommandId} {b : BlockId} {i : Nat} (hb : b < s.blocks.size) (d : BlockId) :
    (s.list b i c).block d = if d = b then
      { s.block d with commands := (s.block d).commands.insertIdx i c } else s.block d :=
  block_modifyBlock s b d _ hb

theorem relocated_list {c : CommandId} {b : BlockId} {i : Nat} (hc : c < s.commands.size)
    (hb : b < s.blocks.size) (hi : i ≤ (s.block b).commands.length)
    (hnodup : ∀ d, (s.block d).commands.Nodup) (hunlisted : ∀ d, c ∉ (s.block d).commands) :
    Relocated s (s.list b i c) c (some b) := by
  refine ⟨blockOf_modifyParent c (some b),
    parent_modifyParent (s := s.modifyBlock b _) hc (some b), owner_list b i, fun d => ?_,
    fun d d' => ?_, rfl⟩
  · rw [block_list hb]
    split
    · next hdb =>
        subst hdb
        exact (List.perm_insertIdx c _ hi).nodup_iff.2 (List.nodup_cons.2 ⟨hunlisted d, hnodup d⟩)
    · exact hnodup d
  · rw [block_list hb]
    by_cases hdb : d' = b
    · subst hdb
      rw [if_pos rfl, mem_insertIdx hi]
      by_cases hdc : d = c <;> simp [hdc]
    · rw [if_neg hdb]
      by_cases hdc : d = c
      · subst hdc
        simpa [Ne.symm hdb] using hunlisted d'
      · rw [if_neg hdc]

@[simp] theorem size_blocks_unlist (b : BlockId) (c : CommandId) :
    (s.unlist b c).blocks.size = s.blocks.size :=
  Array.size_modify

theorem block_unlist {c : CommandId} {b : BlockId} (hb : b < s.blocks.size) (d : BlockId) :
    (s.unlist b c).block d = if d = b then
      { s.block d with commands := (s.block d).commands.erase c } else s.block d :=
  block_modifyBlock s b d _ hb

theorem mem_unlist (h : s.Owned lost) {c : CommandId} {b : BlockId}
    (hmem : c ∈ (s.block b).commands) (d : CommandId) (b' : BlockId) :
    d ∈ ((s.unlist b c).block b').commands ↔ d ≠ c ∧ d ∈ (s.block b').commands := by
  rw [block_unlist (lt_of_mem hmem)]
  split
  · next hb' =>
      subst hb'
      exact (h.nodup b').mem_erase_iff
  · next hb' =>
      refine ⟨fun hd => ⟨?_, hd⟩, And.right⟩
      rintro rfl
      exact hb' (h.block_unique hd hmem)

theorem nodup_unlist (h : s.Owned lost) {c : CommandId} {b : BlockId} (hb : b < s.blocks.size)
    (b' : BlockId) : ((s.unlist b c).block b').commands.Nodup := by
  rw [block_unlist hb]
  split
  · exact (h.nodup b').erase c
  · exact h.nodup b'

theorem relocated_unlist (h : s.Owned lost) {c : CommandId} {b : BlockId}
    (hmem : c ∈ (s.block b).commands) :
    Relocated s ((s.unlist b c).modifyCommand c ({ · with parent := none })) c none := by
  refine ⟨blockOf_modifyParent c none,
    parent_modifyParent (s := s.unlist b c) (h.command_lt hmem) none, owner_unlist b,
    nodup_unlist h (lt_of_mem hmem), fun d b' => ?_, rfl⟩
  · rw [block_modifyCommand, mem_unlist h hmem]
    by_cases hdc : d = c <;> simp [hdc]

theorem relocated_move (h : s.Owned lost) {c : CommandId} {source b : BlockId} {i : Nat}
    (hmem : c ∈ (s.block source).commands) (hb : b < s.blocks.size)
    (hi : i ≤ ((s.unlist source c).block b).commands.length) :
    Relocated s ((s.unlist source c).list b i c) c (some b) := by
  have hlist := relocated_list (s := s.unlist source c) (c := c) (h.command_lt hmem)
    (by rwa [size_blocks_unlist]) hi (nodup_unlist h (lt_of_mem hmem))
    (fun d hd => ((mem_unlist h hmem c d).1 hd).1 rfl)
  refine ⟨hlist.block, hlist.parent, fun d => (hlist.owner d).trans (owner_unlist source d),
    hlist.nodup, fun d d' => ?_, hlist.scripts⟩
  · rw [hlist.listed]
    split
    · rfl
    · next hdc =>
        rw [mem_unlist h hmem]
        exact and_iff_right hdc

/-! ## Losing a command -/

theorem below_unlist {c x y : CommandId} {b : BlockId} (h : s.Owned lost)
    (hmem : c ∈ (s.block b).commands) (hxy : (s.unlist b c).Below x y) : s.Below x y := by
  obtain ⟨d, hd, hx⟩ := hxy
  exact ⟨d, hd, ((mem_unlist h hmem x d).1 hx).2⟩

theorem inside_unlist {c d : CommandId} {b top : BlockId} (h : s.Owned lost)
    (hmem : c ∈ (s.block b).commands) (hd : (s.unlist b c).Inside top d) : s.Inside top d := by
  obtain ⟨e, he, hde⟩ := hd
  exact ⟨e, ((mem_unlist h hmem e top).1 he).2, ReflTransGen.mono (fun _ _ => below_unlist h hmem) _ _ hde⟩

/-- A command that is taken out of its block, and still names it, is lost. -/
theorem Owned.unlist (h : s.Owned lost) {c : CommandId} {b : BlockId}
    (hmem : c ∈ (s.block b).commands) : (s.unlist b c).Owned (c :: lost) := by
  have hparent := h.parent_of_mem hmem
  refine ⟨⟨nodup_unlist h (lt_of_mem hmem), fun d b' => ?_, fun d b' hd => ?_, fun k hk => ?_,
    fun d hd => ?_⟩, fun d hd => ?_⟩
  · rw [mem_unlist h hmem, h.listed, List.mem_cons, not_or]
    exact and_left_comm
  · rw [owner_unlist]
    exact h.own d b' hd
  · rw [owner_unlist]
    exact h.top k hk
  · exact h.acyclic d (TransGen.mono (fun x y => below_unlist h hmem) d d hd)
  · rcases List.mem_cons.1 hd with rfl | hd
    · exact fun hnone => Option.some_ne_none b (hparent.symm.trans hnone)
    · exact h.named d hd

end MailFilter.Store
