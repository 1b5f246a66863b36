import MailFilter.Proofs.Store.Moves

/-!
# What edits leave alone

An operation puts one command into a list, takes it out of one, or does both. The lists of all other
blocks stay as they are, and what is below the command goes along with it. So a walk over a script meets
all other commands in the order in which it met them before.
-/

namespace MailFilter.Store

variable {s s' : Store} {k : ScriptId} {b source : BlockId} {c d : CommandId} {index limit : Value}
  {places : List BlockId} {i n : Nat}

/-! ## Lists without one command -/

theorem filter_ne_insertIdx (ids : List CommandId) :
    (ids.insertIdx i c).filter (· ≠ c) = ids.filter (· ≠ c) := by
  induction ids generalizing i with
  | nil => cases i <;> simp
  | cons d ids ih =>
      cases i with
      | zero => simp
      | succ i => rw [List.insertIdx_succ_cons, List.filter_cons, List.filter_cons, ih]

theorem filter_ne_erase (ids : List CommandId) :
    (ids.erase c).filter (· ≠ c) = ids.filter (· ≠ c) := by
  induction ids with
  | nil => rfl
  | cons d ids ih =>
      by_cases hdc : d = c
      · simp [hdc]
      · rw [List.erase_cons_tail (by simpa using hdc), List.filter_cons, List.filter_cons, ih]

theorem flatMap_filter_ne {f : CommandId → List CommandId} (hf : f c = []) (ids : List CommandId) :
    (ids.filter (· ≠ c)).flatMap f = ids.flatMap f := by
  induction ids with
  | nil => rfl
  | cons d ids ih =>
      by_cases hdc : d = c
      · simpa [hdc, hf] using ih
      · simpa [hdc] using ih

/-! ## Walks to a lesser depth -/

theorem walkTo_subset {m : Nat} (hmn : m ≤ n) : s.walkTo m c ⊆ s.walkTo n c := by
  induction m generalizing n c with
  | zero => exact List.nil_subset _
  | succ m ih =>
      cases n with
      | zero => exact absurd hmn (Nat.not_succ_le_zero m)
      | succ n =>
          rw [walkTo, walkTo]
          refine List.cons_subset_cons c fun d hd => ?_
          obtain ⟨e, he, hde⟩ := List.mem_flatMap.1 hd
          exact List.mem_flatMap.2 ⟨e, he, ih (Nat.le_of_succ_le_succ hmn) hde⟩

/-! ## Commands that are listed otherwise -/

/-- A store that lists one command otherwise, in some blocks that are not beneath it. -/
structure Relisted (s s' : Store) (c : CommandId) (places : List BlockId) : Prop where
  size : s'.commands.size = s.commands.size
  top : ∀ k, (s'.script k).block = (s.script k).block
  head : ∀ d, (s'.command d).head = (s.command d).head
  block : ∀ d, (s'.command d).block = (s.command d).block
  outside : ∀ b ∈ places, s.holdsBlock c b = false
  elsewhere : ∀ b, b ∉ places → (s'.block b).commands = (s.block b).commands
  others : ∀ b, (s'.block b).commands.filter (· ≠ c) = (s.block b).commands.filter (· ≠ c)

namespace Relisted

variable (h : Relisted s s' c places)

include h

theorem children_eq (hd : ∀ b ∈ places, (s.command d).block ≠ some b) :
    s'.children d = s.children d := by
  rw [children, children, h.block d]
  cases hblock : (s.command d).block with
  | none => rfl
  | some b => exact h.elsewhere b fun hb => hd b hb hblock

theorem filter_children : (s'.children d).filter (· ≠ c) = (s.children d).filter (· ≠ c) := by
  rw [children, children, h.block d]
  cases (s.command d).block with
  | none => rfl
  | some b => exact h.others b

theorem walkTo_eq (hout : ∀ e ∈ s.walkTo n d, ∀ b ∈ places, (s.command e).block ≠ some b) :
    s'.walkTo n d = s.walkTo n d := by
  induction n generalizing d with
  | zero => rfl
  | succ n ih =>
      rw [walkTo] at hout
      rw [walkTo, walkTo, h.children_eq (hout d List.mem_cons_self)]
      refine congrArg (d :: ·) (List.flatMap_congr fun e he => ih fun f hf => ?_)
      exact hout f (List.mem_cons_of_mem d (List.mem_flatMap.2 ⟨e, he, hf⟩))

theorem walkTo_self (hn : n ≤ s.commands.size) : s'.walkTo n c = s.walkTo n c := by
  refine h.walkTo_eq fun e he b hb hblock => ?_
  have hout := List.any_eq_false.1 (h.outside b hb) e (walkTo_subset hn he)
  exact hout (beq_iff_eq.2 hblock)

theorem walk_eq : s'.walk c = s.walk c := by
  rw [walk, h.size, h.walkTo_self le_rfl, walk]

omit h in
theorem filter_flatMap {ids ids' : List CommandId} (hn : n ≤ s.commands.size)
    (hids : ids'.filter (· ≠ c) = ids.filter (· ≠ c))
    (hwalk : ∀ d, (s'.walkTo n d).filter (· ∉ s.walk c) = (s.walkTo n d).filter (· ∉ s.walk c)) :
    (ids'.flatMap (s'.walkTo n)).filter (· ∉ s.walk c) =
      (ids.flatMap (s.walkTo n)).filter (· ∉ s.walk c) := by
  have hnone : (s.walkTo n c).filter (· ∉ s.walk c) = [] :=
    List.filter_eq_nil_iff.2 fun d hd => by simpa using show d ∈ s.walk c from walkTo_subset hn hd
  rw [List.filter_flatMap, List.filter_flatMap, funext hwalk, ← flatMap_filter_ne hnone ids', hids,
    flatMap_filter_ne hnone]

theorem filter_walkTo (hn : n ≤ s.commands.size) (d : CommandId) :
    (s'.walkTo n d).filter (· ∉ s.walk c) = (s.walkTo n d).filter (· ∉ s.walk c) := by
  induction n generalizing d with
  | zero => rfl
  | succ n ih =>
      have hn := Nat.le_of_succ_le hn
      rw [walkTo, walkTo, List.filter_cons, List.filter_cons,
        filter_flatMap hn h.filter_children (ih hn)]

theorem filter_walkScript (k : ScriptId) :
    (s'.walkScript k).filter (· ∉ s.walk c) = (s.walkScript k).filter (· ∉ s.walk c) := by
  have hwalk : s'.walk = s'.walkTo s.commands.size := by
    funext d
    rw [walk, h.size]
  rw [walkScript, h.top, hwalk]
  exact filter_flatMap le_rfl (h.others _) (h.filter_walkTo le_rfl)

theorem holdsBlock_eq : s'.holdsBlock c b = s.holdsBlock c b := by
  simp only [holdsBlock, h.walk_eq, h.block]

theorem trans {s'' : Store} {places' : List BlockId} (h' : Relisted s' s'' c places') :
    Relisted s s'' c (places' ++ places) := by
  refine ⟨h'.size.trans h.size, fun k => (h'.top k).trans (h.top k),
    fun d => (h'.head d).trans (h.head d), fun d => (h'.block d).trans (h.block d), fun b hb => ?_,
    fun b hb => ?_, fun b => (h'.others b).trans (h.others b)⟩
  · rcases List.mem_append.1 hb with hb | hb
    · exact h.holdsBlock_eq ▸ h'.outside b hb
    · exact h.outside b hb
  · rw [List.mem_append, not_or] at hb
    exact (h'.elsewhere b hb.1).trans (h.elsewhere b hb.2)

end Relisted

theorem relisted_modifyLists (f : List CommandId → List CommandId)
    (hf : ∀ ids, (f ids).filter (· ≠ c) = ids.filter (· ≠ c)) (hout : s.holdsBlock c b = false) :
    Relisted s (s.modifyBlock b fun cell => { cell with commands := f cell.commands }) c [b] := by
  refine ⟨rfl, fun _ => rfl, fun _ => rfl, fun _ => rfl, by simpa using hout, fun d hd => ?_,
    keep_modifyBlock (g := fun cell => cell.commands.filter (· ≠ c)) (fun cell => hf cell.commands) b⟩
  rw [block_modifyBlock_of_ne _ (by simpa using hd)]

theorem relisted_modifyParent (place : Option BlockId) :
    Relisted s (s.modifyCommand d ({ · with parent := place })) c [] :=
  ⟨Array.size_modify, fun _ => rfl, head_modifyParent d place, blockOf_modifyParent d place, nofun,
    fun _ _ => rfl, fun _ => rfl⟩

theorem relisted_modifyOwner (o : Owner) :
    Relisted s (s.modifyBlock b ({ · with owner := some o })) c [] :=
  ⟨rfl, fun _ => rfl, fun _ => rfl, fun _ => rfl, nofun, fun d _ => commands_modifyOwner b o d,
    fun d => by rw [commands_modifyOwner]⟩

theorem relisted_forget : Relisted s (s.forget b d) c [] := by
  have hsame := sameLinks_forget (s := s) b d
  have hsize : (s.forget b d).commands = s.commands := by
    unfold forget
    repeat (first | rfl | split)
  exact ⟨by rw [hsize], hsame.top, fun e => by rw [command_forget], hsame.block, nofun,
    fun b _ => hsame.listed b, fun b => by rw [hsame.listed]⟩

theorem relisted_list (hout : s.holdsBlock c b = false) : Relisted s (s.list b i c) c [b] :=
  (relisted_modifyLists _ filter_ne_insertIdx hout).trans (relisted_modifyParent (some b))

theorem relisted_unlist (hout : s.holdsBlock c b = false) : Relisted s (s.unlist b c) c [b] :=
  relisted_modifyLists _ filter_ne_erase hout

/-! ## Operations -/

/-- What an operation on one command of a script leaves alone, but for the lists of some blocks: walks
over the script without what is below the command, what is below it, the commands themselves, and the
lists of all other blocks. -/
structure Undisturbed (s s' : Store) (k : ScriptId) (c : CommandId) (places : List BlockId) : Prop where
  order : (s'.walkScript k).filter (· ∉ s.walk c) = (s.walkScript k).filter (· ∉ s.walk c)
  walk : s'.walk c = s.walk c
  head : ∀ d, (s'.command d).head = (s.command d).head
  block : ∀ d, (s'.command d).block = (s.command d).block
  lists : ∀ b, b ∉ places → (s'.block b).commands = (s.block b).commands

theorem Relisted.undisturbed (h : Relisted s s' c places) (k : ScriptId) :
    Undisturbed s s' k c places :=
  ⟨h.filter_walkScript k, h.walk_eq, h.head, h.block, h.elsewhere⟩

theorem relisted_insert (hb : b < s.blocks.size) (hok : s.insert b index c limit = .ok s') :
    Relisted s s' c [b] ∧ ∃ i, slot index = .ok i ∧ i ≤ (s.block b).commands.length ∧
      (s'.block b).commands = (s.block b).commands.insertIdx i c := by
  obtain ⟨i, hchecked, rfl⟩ := insert_ok hok
  have hlist := relisted_list (i := i) hchecked.outside
  have hcommands : ((s.list b i c).block b).commands = (s.block b).commands.insertIdx i c := by
    rw [block_list hb, if_pos rfl]
  cases (s.command c).block with
  | none => exact ⟨hlist, i, hchecked.place, hchecked.inside, hcommands⟩
  | some own =>
      refine ⟨hlist.trans (relisted_modifyOwner _), i, hchecked.place, hchecked.inside, ?_⟩
      rw [commands_modifyOwner, hcommands]

theorem relisted_remove (hb : s.holdsBlock c b = false) :
    Relisted s (((s.forget b c).unlist b c).modifyCommand c ({ · with parent := none })) c [b] := by
  have hforget : Relisted s (s.forget b c) c [] := relisted_forget
  have hunlist := hforget.trans (relisted_unlist (hforget.holdsBlock_eq ▸ hb))
  exact hunlist.trans (relisted_modifyParent none)

theorem relisted_move (hsource : s.holdsBlock c source = false) (hb : s.holdsBlock c b = false) :
    Relisted s ((s.unlist source c).list b i c) c [b, source] := by
  have hunlist := relisted_unlist hsource
  exact hunlist.trans (relisted_list (hunlist.holdsBlock_eq ▸ hb))

theorem inside_forget {top : BlockId} {f : CommandCell → CommandCell} :
    (((s.forget b c).unlist b c).modifyCommand c f).Inside top d ↔
      ((s.unlist b c).modifyCommand c f).Inside top d := by
  unfold forget
  split
  · split <;> rfl
  · rfl

theorem Sound.not_mem_walkScript (h : s.Sound k) (hc : s.Inside (s.script k).block c)
    (hparent : (s.command c).parent = some b) (hd : d ∈ s.walk c) :
    d ∉ (((s.forget b c).unlist b c).modifyCommand c ({ · with parent := none })).walkScript k := by
  obtain ⟨hb, hmem⟩ := h.of_parent hc hparent
  intro hleft
  obtain ⟨e, he, hde⟩ := List.mem_flatMap.1 hleft
  have htop : (((s.forget b c).unlist b c).modifyCommand c ({ · with parent := none })).script k =
      (s.forget b c).script k := rfl
  have hinside := inside_forget.1 ⟨e, he, below_of_mem_walkTo hde⟩
  rw [htop, (sameLinks_forget b c).top] at hinside
  exact (h.shifted_remove hb hmem).not_below_of_inside h hc rfl hinside (below_of_mem_walkTo hd)

/-- Every successful operation inside a sound script leaves alone all but its command, which comes to its
place. -/
theorem undisturbed_of_ok (haudit : s.audit k = .ok n) :
    (∀ b index c limit s', s.Holds k b → s.insert b index c limit = .ok s' →
      Undisturbed s s' k c [b] ∧ ∃ i, slot index = .ok i ∧ (s'.block b).commands[i]? = some c) ∧
    (∀ b c limit s', s.Holds k b → s.append b c limit = .ok s' →
      Undisturbed s s' k c [b] ∧ (s'.block b).commands = (s.block b).commands ++ [c]) ∧
    (∀ c s', c ∈ s.walkScript k → s.remove c = .ok s' →
      Undisturbed s s' k c (s.command c).parent.toList ∧ ∀ d ∈ s.walk c, d ∉ s'.walkScript k) ∧
    (∀ c b index limit s', c ∈ s.walkScript k → s.Holds k b → s.move c b index limit = .ok s' →
      Undisturbed s s' k c (b :: (s.command c).parent.toList) ∧
        ∃ i, slot index = .ok i ∧ (s'.block b).commands[i]? = some c) := by
  obtain ⟨h, hfits, rfl⟩ := sound_of_audit haudit
  refine ⟨?insert, ?append, ?remove, ?move⟩
  case insert =>
    intro b index c limit s' hb hok
    obtain ⟨hlist, i, hslot, hi, hcommands⟩ := relisted_insert (h.block_lt (h.rooted.holds_iff.1 hb)) hok
    exact ⟨hlist.undisturbed k, i, hslot, by rw [hcommands, List.getElem?_insertIdx_self, if_pos hi]⟩
  case append =>
    intro b c limit s' hb hok
    obtain ⟨hlist, i, hslot, -, hcommands⟩ := relisted_insert (h.block_lt (h.rooted.holds_iff.1 hb)) hok
    cases hslot
    exact ⟨hlist.undisturbed k, hcommands.trans List.insertIdx_length_self⟩
  case remove =>
    intro c s' hc hok
    obtain ⟨b, hparent, hmem, rfl⟩ := remove_ok hok
    have hinside := h.rooted.mem_walkScript.1 hc
    have hground := h.rooted.grounded hinside
    have hout := hground.holdsBlock_eq_false.2 (hground.not_beneath hmem)
    rw [hparent]
    exact ⟨(relisted_remove hout).undisturbed k, fun d => h.not_mem_walkScript hinside hparent⟩
  case move =>
    intro c b index limit s' hc hb hok
    obtain ⟨source, i, hchecked, rfl⟩ := move_ok hok
    have hground := h.rooted.grounded (h.rooted.mem_walkScript.1 hc)
    have hout := hground.holdsBlock_eq_false.2 (hground.not_beneath hchecked.listed)
    have hlt := h.block_lt (h.rooted.holds_iff.1 hb)
    rw [hchecked.parent]
    refine ⟨(relisted_move hout hchecked.outside).undisturbed k, i, hchecked.place, ?_⟩
    rw [block_list (by rwa [size_blocks_unlist]), if_pos rfl, List.getElem?_insertIdx_self,
      if_pos hchecked.le_length]

/-- The first command of the script has been taken out. -/
def oneOut : Store := (oneNested.remove 0).toOption.getD .empty

/-- The command that is out goes into the inner block or to the end, and the other ones leave their
places. -/
theorem undisturbed_oneOut :
    (∃ s', oneOut.insert 1 (.bool true) 0 (.int 1) = .ok s' ∧ Undisturbed oneOut s' 0 0 [1] ∧
      (s'.block 1).commands[1]? = some 0) ∧
    (∃ s', oneOut.append 0 0 (.int 1) = .ok s' ∧ Undisturbed oneOut s' 0 0 [0] ∧
      (s'.block 0).commands = (oneOut.block 0).commands ++ [0]) ∧
    (∃ s', oneOut.remove 1 = .ok s' ∧ Undisturbed oneOut s' 0 1 [0] ∧
      ∀ d ∈ oneOut.walk 1, d ∉ s'.walkScript 0) ∧
    ∃ s', oneOut.move 2 0 (.int 0) (.int 1) = .ok s' ∧ Undisturbed oneOut s' 0 2 [0, 1] ∧
      (s'.block 0).commands[0]? = some 2 := by
  have haudit : oneOut.audit 0 = .ok 2 := eq_ok_of_toOption (by decide +kernel)
  obtain ⟨hinsert, happend, hremove, hmove⟩ := undisturbed_of_ok haudit
  have htop : oneOut.Holds 0 0 := .inl (by decide +kernel)
  have hinner : oneOut.Holds 0 1 := .inr ⟨1, by decide +kernel, by decide +kernel⟩
  obtain ⟨s₁, hok₁⟩ := exists_ok_of_isOk
    (show (oneOut.insert 1 (.bool true) 0 (.int 1)).isOk = true by decide +kernel)
  obtain ⟨s₂, hok₂⟩ := exists_ok_of_isOk
    (show (oneOut.append 0 0 (.int 1)).isOk = true by decide +kernel)
  obtain ⟨s₃, hok₃⟩ := exists_ok_of_isOk (show (oneOut.remove 1).isOk = true by decide +kernel)
  obtain ⟨s₄, hok₄⟩ := exists_ok_of_isOk
    (show (oneOut.move 2 0 (.int 0) (.int 1)).isOk = true by decide +kernel)
  have hparent : (oneOut.command 1).parent = some 0 := by decide +kernel
  have hparent' : (oneOut.command 2).parent = some 1 := by decide +kernel
  refine ⟨⟨s₁, hok₁, ?_⟩, ⟨s₂, hok₂, happend 0 0 _ s₂ htop hok₂⟩, ⟨s₃, hok₃, ?_⟩, ⟨s₄, hok₄, ?_⟩⟩
  · obtain ⟨hsame, i, hslot, hplace⟩ := hinsert 1 _ 0 _ s₁ hinner hok₁
    cases hslot
    exact ⟨hsame, hplace⟩
  · have hgone := hremove 1 s₃ (by decide +kernel) hok₃
    rwa [hparent] at hgone
  · obtain ⟨hsame, i, hslot, hplace⟩ := hmove 2 0 _ _ s₄ (by decide +kernel) htop hok₄
    rw [hparent'] at hsame
    cases hslot
    exact ⟨hsame, hplace⟩

end MailFilter.Store
