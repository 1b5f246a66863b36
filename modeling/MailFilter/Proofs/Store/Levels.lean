import Mathlib.Data.List.Perm.Subperm
import MailFilter.Proofs.Store.Front

/-!
# How deep blocks are in scripts

The way from a block up to the script that it is part of.  It passes no block twice, so the searches
along it come to their end, and the level of a block is the number of commands on it.
-/

namespace MailFilter.Store

open Relation

variable {s : Store} {lost : List CommandId} {k : ScriptId} {b b' : BlockId} {c : CommandId}
  {n m : Nat}

/-- A block is so many commands below the top one of a script. -/
inductive Level (s : Store) (k : ScriptId) : Nat → BlockId → Prop where
  | top : Level s k 0 (s.script k).block
  | under {n : Nat} {b p : BlockId} {c : CommandId} (howner : (s.block b).owner = some (.command c))
      (hparent : (s.command c).parent = some p) (hp : Level s k n p) : Level s k (n + 1) b

/-- Every block of a script has a level. -/
theorem Owned.exists_level (h : s.Owned lost) (hb : s.Holds k b) : ∃ n, s.Level k n b := by
  rcases hb with rfl | ⟨c, hc, hblock⟩
  · exact ⟨0, .top⟩
  · obtain ⟨d, hd, hcd⟩ := h.mem_walkScript.1 hc
    induction hcd using ReflTransGen.head_induction_on generalizing b with
    | refl => exact ⟨1, .under (h.own d b hblock) (h.parent_of_mem hd) .top⟩
    | @head c e hce hed ih =>
        obtain ⟨p, heblock, hcp⟩ := hce
        obtain ⟨n, hn⟩ := ih (h.mem_walkScript.2 ⟨d, hd, hed⟩) heblock
        exact ⟨n + 1, .under (h.own c b hblock) (h.parent_of_mem hcp) hn⟩

theorem Level.eq_zero (hb : s.Level k n b) {j : ScriptId}
    (howner : (s.block b).owner = some (.script j)) : n = 0 := by
  cases hb with
  | top => rfl
  | under howner' _ _ =>
      rw [howner] at howner'
      cases howner'

section Script

variable (htop : (s.block (s.script k).block).owner = some (.script k))

include htop

theorem Level.unique (hn : s.Level k n b) (hm : s.Level k m b) : n = m := by
  induction hn generalizing m with
  | top =>
      cases hm with
      | top => rfl
      | under howner hparent hp =>
          rw [htop] at howner
          cases howner
  | under howner hparent hp ih =>
      cases hm with
      | top =>
          rw [htop] at howner
          cases howner
      | under howner' hparent' hp' =>
          cases howner.symm.trans howner'
          cases hparent.symm.trans hparent'
          rw [ih hp']

theorem Level.exists_blocks (hb : s.Level k n b) : ∃ blocks : List BlockId, blocks.length = n + 1 ∧
    blocks.Nodup ∧ ∀ d ∈ blocks, d < s.blocks.size ∧ ∃ m ≤ n, s.Level k m d := by
  induction hb with
  | top =>
      refine ⟨[(s.script k).block], rfl, List.nodup_singleton _, fun d hd => ?_⟩
      rw [List.mem_singleton.1 hd]
      exact ⟨lt_of_owner htop, 0, Nat.le_refl _, .top⟩
  | @under n b p c howner hparent hp ih =>
      obtain ⟨blocks, hlength, hnodup, hblocks⟩ := ih
      have hb := Level.under howner hparent hp
      refine ⟨b :: blocks, congrArg Nat.succ hlength, List.nodup_cons.2 ⟨fun hmem => ?_, hnodup⟩,
        List.forall_mem_cons.2 ⟨⟨lt_of_owner howner, n + 1, Nat.le_refl _, hb⟩, fun d hd => ?_⟩⟩
      · obtain ⟨-, m, hm, hlevel⟩ := hblocks b hmem
        have := hb.unique htop hlevel
        omega
      · obtain ⟨hlt, m, hm, hlevel⟩ := hblocks d hd
        exact ⟨hlt, m, hm.trans (Nat.le_succ n), hlevel⟩

theorem Level.lt (hb : s.Level k n b) : n < s.blocks.size := by
  obtain ⟨blocks, hlength, hnodup, hblocks⟩ := hb.exists_blocks htop
  have hsub : blocks ⊆ List.range s.blocks.size := fun d hd => List.mem_range.2 (hblocks d hd).1
  have := (List.subperm_of_subset hnodup hsub).length_le
  rw [List.length_range] at this
  omega

theorem Level.scriptAbove? (hb : s.Level k n b) {fuel : Nat} (hfuel : n < fuel) :
    s.scriptAbove? fuel b = some k := by
  induction hb generalizing fuel with
  | top =>
      obtain ⟨fuel, rfl⟩ := Nat.exists_eq_succ_of_ne_zero (Nat.ne_of_gt hfuel)
      rw [Store.scriptAbove?, htop]
  | under howner hparent hp ih =>
      obtain ⟨fuel, rfl⟩ := Nat.exists_eq_succ_of_ne_zero (Nat.ne_of_gt (Nat.zero_lt_of_lt hfuel))
      rw [Store.scriptAbove?, howner]
      simp only [hparent, Option.bind_some]
      exact ih (Nat.lt_of_succ_lt_succ hfuel)

theorem Level.exists_commands (hb : s.Level k n b) : ∃ ids : List CommandId, ids.length = n ∧
    ids.Nodup ∧ ∀ c ∈ ids, c < s.commands.size ∧
      ∃ m < n, ∃ p, (s.command c).parent = some p ∧ s.Level k m p := by
  induction hb with
  | top => exact ⟨[], rfl, .nil, by simp⟩
  | @under n b p c howner hparent hp ih =>
      obtain ⟨ids, hlength, hnodup, hids⟩ := ih
      refine ⟨c :: ids, congrArg Nat.succ hlength, List.nodup_cons.2 ⟨fun hmem => ?_, hnodup⟩,
        List.forall_mem_cons.2 ⟨⟨lt_of_parent hparent, n, Nat.lt_succ_self n, p, hparent, hp⟩,
          fun d hd => ?_⟩⟩
      · obtain ⟨-, m, hm, q, hq, hlevel⟩ := hids c hmem
        cases hparent.symm.trans hq
        exact absurd (hp.unique htop hlevel) (Nat.ne_of_gt hm)
      · obtain ⟨hlt, m, hm, hlevel⟩ := hids d hd
        exact ⟨hlt, m, hm.trans (Nat.lt_succ_self n), hlevel⟩

theorem Level.le_commands (hb : s.Level k n b) : n ≤ s.commands.size := by
  obtain ⟨ids, rfl, hnodup, hids⟩ := hb.exists_commands htop
  have hsub : ids ⊆ List.range s.commands.size := fun c hc => List.mem_range.2 (hids c hc).1
  have := (List.subperm_of_subset hnodup hsub).length_le
  rwa [List.length_range] at this

theorem Level.length_around (hb : s.Level k n b) {fuel : Nat} (hfuel : n < fuel)
    {met : List CommandId}
    (hmet : ∀ c ∈ met, ∀ m p, (s.command c).parent = some p → s.Level k m p → n ≤ m) :
    (s.around fuel met b).length = n + met.length := by
  induction hb generalizing fuel met with
  | top =>
      obtain ⟨fuel, rfl⟩ := Nat.exists_eq_succ_of_ne_zero (Nat.ne_of_gt hfuel)
      rw [around, htop, Nat.zero_add]
  | @under n b p c howner hparent hp ih =>
      obtain ⟨fuel, rfl⟩ := Nat.exists_eq_succ_of_ne_zero (Nat.ne_of_gt (Nat.zero_lt_of_lt hfuel))
      have hnew : met.contains c = false := by
        refine Bool.eq_false_iff.2 fun hmem => ?_
        exact absurd (hmet c (List.contains_iff_mem.1 hmem) n p hparent hp) (Nat.not_succ_le_self n)
      simp only [around, howner, hnew, Bool.false_eq_true, if_false, hparent]
      rw [ih (Nat.lt_of_succ_lt_succ hfuel), List.length_cons]
      · omega
      · refine List.forall_mem_cons.2 ⟨fun m q hq hlevel => ?_, fun d hd m q hq hlevel => ?_⟩
        · cases hparent.symm.trans hq
          exact (hp.unique htop hlevel).le
        · exact (Nat.le_succ n).trans (hmet d hd m q hq hlevel)

theorem Level.level_eq (hb : s.Level k n b) : s.level b = n :=
  hb.length_around htop (Nat.lt_succ_of_le (hb.le_commands htop)) (by simp)

end Script

theorem Owned.scriptOf?_of_holds (h : s.Owned lost) (hk : k < s.scripts.size) (hb : s.Holds k b) :
    s.scriptOf? b = some k := by
  obtain ⟨n, hn⟩ := h.exists_level hb
  exact hn.scriptAbove? (h.top k hk) (hn.lt (h.top k hk))

end MailFilter.Store
