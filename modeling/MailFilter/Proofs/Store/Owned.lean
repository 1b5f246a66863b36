import Mathlib.Data.Finset.Card
import Mathlib.Data.Finset.Range
import Mathlib.Logic.Relation
import MailFilter.Store.Basic

/-!
# Stores in which everything has one owner

A command is listed where it says it is, once, and no command is below itself.  That a walk finds all
that is below a command follows from this, and with it that the checks of the operations suffice.
While a tree is put into a store, some commands name a block that does not list them yet.  Others are
lost: a move that failed has taken them out of the block that they name.
-/

namespace MailFilter.Store

open Relation

variable {s s' : Store} {pending lost : List CommandId}

/-- A command is in the block of another one. -/
def Below (s : Store) (d c : CommandId) : Prop :=
  ∃ b, (s.command c).block = some b ∧ d ∈ (s.block b).commands

/-- Commands and blocks agree on what belongs where, but for the commands that wait to be listed. -/
structure Joined (s : Store) (pending : List CommandId) : Prop where
  nodup : ∀ b, (s.block b).commands.Nodup
  listed : ∀ c b, c ∈ (s.block b).commands ↔ (s.command c).parent = some b ∧ c ∉ pending
  own : ∀ c b, (s.command c).block = some b → (s.block b).owner = some (.command c)
  top : ∀ k, k < s.scripts.size → (s.block (s.script k).block).owner = some (.script k)
  acyclic : ∀ c, ¬ TransGen s.Below c c

/-- Commands and blocks have one owner each, but for the commands that are lost. -/
structure Owned (s : Store) (lost : List CommandId) : Prop extends Joined s lost where
  named : ∀ c ∈ lost, (s.command c).parent ≠ none

theorem script_congr (hscripts : s'.scripts = s.scripts) (k : ScriptId) : s'.script k = s.script k := by
  rw [script, script, hscripts]

/-! ## Cells that do not exist -/

theorem command_of_size_le {c : CommandId} (h : s.commands.size ≤ c) : s.command c = default := by
  rw [command, Array.getD_eq_getD_getElem?, Array.getElem?_eq_none h]
  rfl

theorem block_of_size_le {b : BlockId} (h : s.blocks.size ≤ b) : s.block b = default := by
  rw [block, Array.getD_eq_getD_getElem?, Array.getElem?_eq_none h]
  rfl

theorem lt_of_parent {c : CommandId} {b : BlockId} (h : (s.command c).parent = some b) :
    c < s.commands.size := by
  rcases Nat.lt_or_ge c s.commands.size with hlt | hge
  · exact hlt
  · rw [command_of_size_le hge] at h
    cases h

theorem lt_of_block {c : CommandId} {b : BlockId} (h : (s.command c).block = some b) :
    c < s.commands.size := by
  rcases Nat.lt_or_ge c s.commands.size with hlt | hge
  · exact hlt
  · rw [command_of_size_le hge] at h
    cases h

theorem lt_of_mem {c : CommandId} {b : BlockId} (h : c ∈ (s.block b).commands) :
    b < s.blocks.size := by
  rcases Nat.lt_or_ge b s.blocks.size with hlt | hge
  · exact hlt
  · rw [block_of_size_le hge] at h
    cases h

theorem lt_of_owner {b : BlockId} {o : Owner} (h : (s.block b).owner = some o) :
    b < s.blocks.size := by
  rcases Nat.lt_or_ge b s.blocks.size with hlt | hge
  · exact hlt
  · rw [block_of_size_le hge] at h
    cases h

namespace Joined

variable (h : s.Joined pending)

include h

theorem parent_of_mem {c : CommandId} {b : BlockId} (hc : c ∈ (s.block b).commands) :
    (s.command c).parent = some b :=
  ((h.listed c b).1 hc).1

theorem block_unique {c : CommandId} {b b' : BlockId} (hb : c ∈ (s.block b).commands)
    (hb' : c ∈ (s.block b').commands) : b = b' :=
  Option.some.inj ((h.parent_of_mem hb).symm.trans (h.parent_of_mem hb'))

theorem command_lt {c : CommandId} {b : BlockId} (hc : c ∈ (s.block b).commands) :
    c < s.commands.size :=
  lt_of_parent (h.parent_of_mem hc)

theorem block_lt {c : CommandId} {b : BlockId} (hb : (s.command c).block = some b) :
    b < s.blocks.size :=
  lt_of_owner (h.own c b hb)

theorem congr {waiting : List CommandId} (hsame : ∀ c, c ∈ waiting ↔ c ∈ pending) :
    s.Joined waiting := by
  refine ⟨h.nodup, fun c b => ?_, h.own, h.top, h.acyclic⟩
  rw [hsame]
  exact h.listed c b

theorem block_injective {c d : CommandId} {b : BlockId} (hc : (s.command c).block = some b)
    (hd : (s.command d).block = some b) : c = d := by
  have := (h.own c b hc).symm.trans (h.own d b hd)
  cases this
  rfl

theorem block_ne {b : BlockId} {k : ScriptId} (hb : (s.block b).owner = some (.script k))
    (c : CommandId) : (s.command c).block ≠ some b := by
  intro hc
  have := (h.own c b hc).symm.trans hb
  cases this

end Joined

theorem Joined.not_lost_of_mem (h : s.Joined lost) {c : CommandId} {b : BlockId}
    (hc : c ∈ (s.block b).commands) : c ∉ lost :=
  ((h.listed c b).1 hc).2

theorem Owned.not_lost (h : s.Owned lost) {c : CommandId} (hparent : (s.command c).parent = none) :
    c ∉ lost :=
  fun hc => h.named c hc hparent

theorem Owned.lt_of_lost (h : s.Owned lost) : ∀ c ∈ lost, c < s.commands.size := fun c hc => by
  obtain ⟨b, hparent⟩ := Option.ne_none_iff_exists'.1 (h.named c hc)
  exact lt_of_parent hparent

/-! ## Walks -/

theorem mem_children {c d : CommandId} : d ∈ s.children c ↔ s.Below d c := by
  unfold children Below
  cases hb : (s.command c).block with
  | none => simp
  | some b => simp

open Classical in
noncomputable def descendants (s : Store) (c : CommandId) : Finset CommandId :=
  (Finset.range s.commands.size).filter fun d => TransGen s.Below d c

/-- A command exists with all that is below it, and no cycle is among that. -/
structure Grounded (s : Store) (c : CommandId) : Prop where
  lt : ∀ d, ReflTransGen s.Below d c → d < s.commands.size
  acyclic : ∀ d, ReflTransGen s.Below d c → ¬ TransGen s.Below d d

namespace Grounded

variable {c d : CommandId} (h : s.Grounded c)

include h

theorem below (hd : s.Below d c) : s.Grounded d :=
  ⟨fun e he => h.lt e (he.tail hd), fun e he => h.acyclic e (he.tail hd)⟩

theorem mem_descendants : d ∈ s.descendants c ↔ TransGen s.Below d c := by
  classical
  rw [descendants, Finset.mem_filter, Finset.mem_range]
  exact ⟨fun hd => hd.2, fun hd => ⟨h.lt d hd.to_reflTransGen, hd⟩⟩

theorem descendants_ssubset (hbelow : s.Below d c) : s.descendants d ⊂ s.descendants c := by
  have hd := h.below hbelow
  rw [Finset.ssubset_iff_of_subset]
  · refine ⟨d, h.mem_descendants.2 (.single hbelow), fun hself => ?_⟩
    exact hd.acyclic d .refl (hd.mem_descendants.1 hself)
  · intro e he
    exact h.mem_descendants.2 ((hd.mem_descendants.1 he).tail hbelow)

theorem card_descendants_lt : (s.descendants c).card < s.commands.size := by
  have hsub : s.descendants c ⊂ Finset.range s.commands.size := by
    rw [Finset.ssubset_iff_of_subset]
    · refine ⟨c, Finset.mem_range.2 (h.lt c .refl), fun hself => ?_⟩
      exact h.acyclic c .refl (h.mem_descendants.1 hself)
    · intro d hd
      exact Finset.mem_range.2 (h.lt d (h.mem_descendants.1 hd).to_reflTransGen)
  have := Finset.card_lt_card hsub
  rwa [Finset.card_range] at this

end Grounded

theorem Grounded.mem_walkTo {depth : Nat} {c d : CommandId} (h : s.Grounded c)
    (hdepth : (s.descendants c).card < depth) (hd : ReflTransGen s.Below d c) :
    d ∈ s.walkTo depth c := by
  induction depth generalizing c with
  | zero => exact absurd hdepth (Nat.not_lt_zero _)
  | succ depth ih =>
      rw [walkTo]
      rcases ReflTransGen.cases_tail hd with rfl | ⟨e, hde, hec⟩
      · simp
      · -- One level down there are fewer commands below, so the depth that is left suffices.
        refine List.mem_cons_of_mem _
          (List.mem_flatMap.2 ⟨e, mem_children.2 hec, ih (h.below hec) ?_ hde⟩)
        have := Finset.card_lt_card (h.descendants_ssubset hec)
        omega

theorem below_of_mem_walkTo {depth : Nat} {c d : CommandId} (hd : d ∈ s.walkTo depth c) :
    ReflTransGen s.Below d c := by
  induction depth generalizing c with
  | zero => cases hd
  | succ depth ih =>
      rw [walkTo, List.mem_cons, List.mem_flatMap] at hd
      rcases hd with rfl | ⟨e, he, hd⟩
      · exact .refl
      · exact (ih hd).tail (mem_children.1 he)

/-- A walk finds a command and all that is below it. -/
theorem Grounded.mem_walk {c d : CommandId} (h : s.Grounded c) :
    d ∈ s.walk c ↔ ReflTransGen s.Below d c :=
  ⟨below_of_mem_walkTo, h.mem_walkTo h.card_descendants_lt⟩

theorem Joined.grounded (h : s.Joined pending) {c : CommandId} (hc : c < s.commands.size) :
    s.Grounded c := by
  refine ⟨fun d hd => ?_, fun d _ => h.acyclic d⟩
  rcases ReflTransGen.cases_head hd with rfl | ⟨e, ⟨b, -, hde⟩, -⟩
  · exact hc
  · exact h.command_lt hde

theorem Joined.mem_walk (h : s.Joined pending) {c d : CommandId} (hc : c < s.commands.size) :
    d ∈ s.walk c ↔ ReflTransGen s.Below d c :=
  (h.grounded hc).mem_walk

/-- A command is in a block or below one that is. -/
def Inside (s : Store) (b : BlockId) (c : CommandId) : Prop :=
  ∃ d ∈ (s.block b).commands, ReflTransGen s.Below c d

theorem Joined.mem_walkScript (h : s.Joined pending) {k : ScriptId} {c : CommandId} :
    c ∈ s.walkScript k ↔ s.Inside (s.script k).block c := by
  rw [walkScript, List.mem_flatMap]
  constructor
  · rintro ⟨d, hd, hc⟩
    exact ⟨d, hd, (h.mem_walk (h.command_lt hd)).1 hc⟩
  · rintro ⟨d, hd, hc⟩
    exact ⟨d, hd, (h.mem_walk (h.command_lt hd)).2 hc⟩

end MailFilter.Store
