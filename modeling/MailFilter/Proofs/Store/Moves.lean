import MailFilter.Proofs.Store.Limits
import MailFilter.Proofs.Store.Places

/-!
# Moves inside a script

To which places of a sound script a command of it can go, and how it comes back.
-/

namespace MailFilter.Store

open Relation

variable {s s' : Store} {k : ScriptId} {source b : BlockId} {c : CommandId} {index limit : Value}
  {i j m n : Nat}

/-! ## Lists with one command more -/

theorem erase_insertIdx {ids : List CommandId} (hc : c ∉ ids) : (ids.insertIdx i c).erase c = ids := by
  induction ids generalizing i with
  | nil =>
      cases i with
      | zero => exact List.erase_cons_head c []
      | succ i => rfl
  | cons d ids ih =>
      rw [List.mem_cons, not_or] at hc
      cases i with
      | zero => exact List.erase_cons_head c (d :: ids)
      | succ i =>
          rw [List.insertIdx_succ_cons, List.erase_cons_tail (by simpa using Ne.symm hc.1), ih hc.2]

theorem insertIdx_erase {ids : List CommandId} (hids : ids.Nodup) (hc : ids[i]? = some c) :
    (ids.erase c).insertIdx i c = ids := by
  obtain ⟨hi, rfl⟩ := List.getElem?_eq_some_iff.1 hc
  rw [hids.erase_getElem i hi, List.insertIdx_eraseIdx_getElem]

theorem unlist_list (hc : c ∉ (s.block b).commands) :
    (s.list b i c).unlist b c = s.modifyCommand c ({ · with parent := some b }) := by
  have hlists : (s.modifyBlock b fun cell =>
      { cell with commands := cell.commands.insertIdx i c }).modifyBlock b
        (fun cell => { cell with commands := cell.commands.erase c }) = s := by
    rw [modifyBlock_modifyBlock]
    refine modifyBlock_eq_self ?_
    simp only [Function.comp_apply, erase_insertIdx hc]
  exact congrArg (modifyCommand · c ({ · with parent := some b })) hlists

theorem list_modifyParent (place : Option BlockId) :
    (s.modifyCommand c ({ · with parent := place })).list b i c = s.list b i c :=
  modifyCommand_modifyCommand (f := ({ · with parent := place })) (g := ({ · with parent := some b }))
    (s := s.modifyBlock b fun cell => { cell with commands := cell.commands.insertIdx i c })

theorem list_unlist (hnodup : (s.block b).commands.Nodup) (hc : (s.block b).commands[i]? = some c)
    (hparent : (s.command c).parent = some b) : (s.unlist b c).list b i c = s := by
  have hlists : (s.unlist b c).modifyBlock b
      (fun cell => { cell with commands := cell.commands.insertIdx i c }) = s := by
    rw [unlist, modifyBlock_modifyBlock]
    refine modifyBlock_eq_self ?_
    simp only [Function.comp_apply, insertIdx_erase hnodup hc]
  rw [list, hlists]
  refine modifyCommand_eq_self ?_
  rw [← hparent]

/-! ## Places to go -/

/-- A place in a script to which a command can go from its block. -/
structure CanGo (s : Store) (k : ScriptId) (c : CommandId) (source b : BlockId) (index limit : Value)
    (i : Nat) : Prop where
  outside : ¬ s.Beneath c b
  place : slot index = .ok i
  inside : i ≤ ((s.unlist source c).block b).commands.length
  first : index.compareInt? 0 = some (some .eq) ↔ i = 0
  front : (s.script k).block = b → ∀ r, s.requireOf? k = some r → r ≠ c → i ≠ 0
  depth : s.checkDepth (s.level b + s.height c) c limit = .ok ()

namespace Sound

variable (h : s.Sound k)

include h

theorem block_lt (hb : s.Part (s.script k).block b) : b < s.blocks.size := by
  rcases hb with rfl | ⟨d, hd, hblock⟩
  · exact lt_of_owner h.top
  · exact lt_of_owner (h.own d b hd hblock)

variable (hfits : s.Fits k) (hc : s.Inside (s.script k).block c)
  (hparent : (s.command c).parent = some source) (hb : s.Part (s.script k).block b)

include hfits hc hparent hb

/-- Inside a sound script every command but its `require` moves where it can go. -/
theorem move_eq_ok : s.move c b index limit = .ok s' ↔ s.requireOf? k ≠ some c ∧
    ∃ i, s.CanGo k c source b index limit i ∧ s' = (s.unlist source c).list b i c := by
  have hground := h.rooted.grounded hc
  obtain ⟨hsource, hmem⟩ := h.of_parent hc hparent
  have hscript := h.scriptOf?_eq hsource
  have hfront := hfits.checkFront_eq_ok
  have hplace := h.scriptOf?_eq hb
  rw [Store.move_eq_ok]
  constructor
  · rintro ⟨source', i, hchecked, -, -, hs'⟩
    cases hchecked.parent.symm.trans hparent
    refine ⟨(isRequireOf_eq_false hscript).1 hchecked.keeps, i, ?_, hs'⟩
    exact ⟨hground.holdsBlock_eq_false.1 hchecked.outside, hchecked.place, hchecked.le_length,
      hchecked.first, (checkRequireSlot_eq_ok_of_place hplace hfront hchecked.first).1 hchecked.front,
      hchecked.depth⟩
  · rintro ⟨hne, i, hgo, hs'⟩
    refine ⟨source, i, ⟨hparent, hmem, hground.holdsBlock_eq_false.2 hgo.outside,
      (isRequireOf_eq_false hscript).2 hne,
      (checkRequireSlot_eq_ok_of_place hplace hfront hgo.first).2 hgo.front, hgo.depth, hgo.place,
      length_unlist hmem b ▸ hgo.inside, hgo.first⟩, ?_, ?_, hs'⟩
    · rwa [checkScriptFront, hscript]
    · exact hfits.checkItems_eq_ok fun d hd => hc.below (hground.mem_walk.1 hd)

end Sound

/-! ## Moving back -/

section Back

variable (h : s.Sound k) (hsource : s.Part (s.script k).block source)
  (hc : (s.block source).commands[j]? = some c) (hb : s.Part (s.script k).block b)
  (hgo : s.CanGo k c source b index limit i)

include h hsource hc hb hgo

theorem CanGo.shifted : Shifted s ((s.unlist source c).list b i c) k c (some b) :=
  h.shifted_move hsource (List.mem_of_getElem? hc) hb (h.block_lt hb) hgo.inside
    fun r hr hne htop => hgo.front htop r hr hne

/-- What can go to a place can go back, within the limit that the script had. -/
theorem CanGo.back (hne : s.requireOf? k ≠ some c) (hshallow : s.Shallow k m) :
    ((s.unlist source c).list b i c).CanGo k c b source (.int j) (.int m) j := by
  have hmem := List.mem_of_getElem? hc
  have hinside := hsource.inside hmem
  have hparent := h.parent c source hsource hmem
  have hground := h.rooted.grounded hinside
  have hstay := hground.not_beneath hmem
  have hshift := hgo.shifted h hsource hc hb
  have hbelow : SameBelow s ((s.unlist source c).list b i c) c :=
    sameBelow_move hstay hgo.outside
  have habove := hshift.sameAbove h
  have hnone : c ∉ ((s.unlist source c).block b).commands :=
    fun hmem' => ((h.mem_unlist hsource hmem hb).1 hmem').1 rfl
  refine ⟨fun hbeneath => hstay (hbelow.beneath_iff.1 hbeneath), rfl, ?_, ?_, fun htop r hr hrc => ?_, ?_⟩
  · rw [unlist_list hnone, block_modifyCommand, length_unlist hmem, beq_self_eq_true, if_pos rfl]
    have := (List.getElem?_eq_some_iff.1 hc).1
    omega
  · show some (some (compare (j : Int) 0)) = _ ↔ _
    rw [Option.some.injEq, Option.some.injEq, Int.compare_eq_eq]
    omega
  · rintro rfl
    rw [hshift.requireOf?_eq h hinside hne] at hr
    rw [hshift.script] at htop
    have hhead := (requireOf?_eq_some.1 hr).1
    rw [htop, List.head?_eq_getElem?, hc] at hhead
    exact hrc (Option.some.inj hhead).symm
  · rw [hbelow.height_eq, habove.level_eq ⟨hsource, hstay⟩ hbelow.size, checkDepth_int,
      if_pos (h.level_add_height_le hshallow hinside hparent)]

end Back

/-- A move inside a sound script is undone by the move back to the old place. -/
theorem move_move_back (haudit : s.audit k = .ok n) (hheight : s.scriptHeight k ≤ m)
    (hsource : s.Holds k source) (hc : (s.block source).commands[j]? = some c) (hb : s.Holds k b)
    (hok : s.move c b index (.int m) = .ok s') :
    s'.audit k = .ok n ∧ s'.move c source (.int j) (.int m) = .ok s := by
  obtain ⟨h, hfits, rfl⟩ := sound_of_audit haudit
  have hsource := h.rooted.holds_iff.1 hsource
  have hb := h.rooted.holds_iff.1 hb
  have hmem := List.mem_of_getElem? hc
  have hinside := hsource.inside hmem
  have hparent := h.parent c source hsource hmem
  obtain ⟨hne, i, hgo, rfl⟩ := (h.move_eq_ok hfits hinside hparent hb).1 hok
  have hshift := hgo.shifted h hsource hc hb
  have hsound := hshift.sound hinside h hne
  have hfits' := hshift.fits hinside hfits
  refine ⟨?_, ?_⟩
  · rw [hsound.audit_eq hfits', hshift.length_walkScript hinside hb hgo.outside h hne]
  · have hinside' := hshift.inside_place hb hgo.outside
    have hsource' := (hshift.part_iff hinside hb hgo.outside).2 hsource
    have hparent' := hshift.parent c
    rw [← hshift.script] at hinside' hsource'
    rw [if_pos rfl] at hparent'
    refine (hsound.move_eq_ok hfits' hinside' hparent' hsource').2 ⟨?_, j,
      hgo.back h hsource hc hb hne (h.rooted.scriptHeight_le.1 hheight), ?_⟩
    · rwa [hshift.requireOf?_eq h hinside hne]
    · rw [unlist_list, list_modifyParent, list_unlist (h.listed.nodup source hsource) hc hparent]
      exact fun hmem' => ((h.mem_unlist hsource hmem hb).1 hmem').1 rfl

/-- A script of two commands, one of them with a third inside. -/
def oneNested : Store :=
  run ((Script.ofText "keep; if true { stop; }" "f" .default).toOption.toList.map fun t => .script t)

/-- The first command comes into the block of the second, and back. -/
theorem move_back_oneNested : ∃ s', oneNested.move 0 1 (.int 1) (.int 1) = .ok s' ∧
    s'.audit 0 = .ok 3 ∧ s'.move 0 0 (.int 0) (.int 1) = .ok oneNested := by
  obtain ⟨s', hok⟩ := exists_ok_of_isOk
    (show (oneNested.move 0 1 (.int 1) (.int 1)).isOk = true by decide +kernel)
  have haudit : oneNested.audit 0 = .ok 3 := eq_ok_of_toOption (by decide +kernel)
  have hsource : oneNested.Holds 0 0 := .inl (by decide +kernel)
  have hplace : oneNested.Holds 0 1 := .inr ⟨1, by decide +kernel, by decide +kernel⟩
  exact ⟨s', hok, move_move_back (j := 0) haudit (by decide +kernel) hsource (by decide +kernel) hplace
    hok⟩

end MailFilter.Store
