import MailFilter.Proofs.Store.Owned

/-!
# What can be reached from a block

Where everything that can be reached from a block has one owner, it is a tree, and a walk over it meets
every command once.  What else is in the store does not matter.
-/

namespace MailFilter.Store

open Relation

variable {s : Store} {top b b' : BlockId} {c d e : CommandId}

/-- A block is the top one, or the block of a command inside it. -/
def Part (s : Store) (top b : BlockId) : Prop :=
  b = top ∨ ∃ c, s.Inside top c ∧ (s.command c).block = some b

theorem Inside.below (hc : s.Inside top c) (hd : ReflTransGen s.Below d c) : s.Inside top d := by
  obtain ⟨e, he, hce⟩ := hc
  exact ⟨e, he, hd.trans hce⟩

theorem Part.inside (hb : s.Part top b) (hc : c ∈ (s.block b).commands) : s.Inside top c := by
  rcases hb with rfl | ⟨d, hd, hblock⟩
  · exact ⟨c, hc, .refl⟩
  · exact hd.below (.single ⟨b, hblock, hc⟩)

theorem Inside.part (hc : s.Inside top c) (hb : (s.command c).block = some b) : s.Part top b :=
  .inr ⟨c, hc, hb⟩

theorem Inside.exists_part (hc : s.Inside top c) : ∃ b, s.Part top b ∧ c ∈ (s.block b).commands := by
  obtain ⟨d, hd, hcd⟩ := hc
  rcases ReflTransGen.cases_head hcd with rfl | ⟨e, ⟨b, hblock, hc⟩, hed⟩
  · exact ⟨top, .inl rfl, hd⟩
  · exact ⟨b, .inr ⟨e, ⟨d, hd, hed⟩, hblock⟩, hc⟩

/-- No command that can be reached is listed twice. -/
structure ListedOnce (s : Store) (top : BlockId) : Prop where
  nodup : ∀ b, s.Part top b → (s.block b).commands.Nodup
  apart : ∀ c b b', s.Part top b → s.Part top b' → c ∈ (s.block b).commands →
    c ∈ (s.block b').commands → b = b'

/-- What can be reached from a block is a tree. -/
structure Rooted (s : Store) (top : BlockId) : Prop where
  lt : ∀ c, s.Inside top c → c < s.commands.size
  listed : s.ListedOnce top
  own : ∀ c d b, s.Inside top c → s.Inside top d → (s.command c).block = some b →
    (s.command d).block = some b → c = d
  above : ∀ c, s.Inside top c → (s.command c).block ≠ some top

namespace Rooted

variable (h : s.Rooted top)

include h

theorem not_below_of_mem_top (hc : c ∈ (s.block top).commands) (hd : s.Inside top d) :
    ¬ s.Below c d := by
  rintro ⟨b, hblock, hcb⟩
  have htop := h.listed.apart c top b (.inl rfl) (hd.part hblock) hc hcb
  exact h.above d hd (htop ▸ hblock)

theorem above_unique (hd : s.Inside top d) (he : s.Inside top e) (hcd : s.Below c d)
    (hce : s.Below c e) : d = e := by
  obtain ⟨b, hblock, hcb⟩ := hcd
  obtain ⟨b', hblock', hcb'⟩ := hce
  have hbb' := h.listed.apart c b b' (hd.part hblock) (he.part hblock') hcb hcb'
  exact h.own d e b hd he hblock (hbb' ▸ hblock')

theorem acyclic (hc : s.Inside top c) : ¬ TransGen s.Below c c := by
  have hinside := hc
  obtain ⟨d, hd, hcd⟩ := hc
  induction hcd using ReflTransGen.head_induction_on with
  | refl =>
      intro hcycle
      obtain ⟨e, hde, hed⟩ := TransGen.head'_iff.1 hcycle
      exact h.not_below_of_mem_top hd (hinside.below hed) hde
  | @head c e hce hed ih =>
      intro hcycle
      obtain ⟨f, hcf, hfc⟩ := TransGen.head'_iff.1 hcycle
      have he : s.Inside top e := ⟨d, hd, hed⟩
      -- The cycle goes up through the only command above `c`, so that one is on it as well.
      have hfe : f = e := h.above_unique (hinside.below hfc) he hcf hce
      subst hfe
      exact ih he (TransGen.tail' hfc hce)

theorem grounded (hc : s.Inside top c) : s.Grounded c :=
  ⟨fun d hd => h.lt d (hc.below hd), fun _ hd => h.acyclic (hc.below hd)⟩

theorem mem_walk (hc : s.Inside top c) : d ∈ s.walk c ↔ ReflTransGen s.Below d c :=
  (h.grounded hc).mem_walk

theorem total (hd : s.Inside top d) (he : s.Inside top e) (hcd : ReflTransGen s.Below c d)
    (hce : ReflTransGen s.Below c e) : ReflTransGen s.Below d e ∨ ReflTransGen s.Below e d := by
  induction hcd using ReflTransGen.head_induction_on with
  | refl => exact .inl hce
  | @head c f hcf hfd ih =>
      rcases ReflTransGen.cases_head hce with rfl | ⟨g, hcg, hge⟩
      · exact .inr (.head hcf hfd)
      · have hgf := h.above_unique (he.below hge) (hd.below hfd) hcg hcf
        exact ih (hgf ▸ hge)

theorem not_below_of_mem (hb : s.Part top b) (hd : d ∈ (s.block b).commands)
    (he : e ∈ (s.block b).commands) (hne : d ≠ e) : ¬ ReflTransGen s.Below d e := by
  intro hde
  rcases ReflTransGen.cases_head hde with rfl | ⟨f, ⟨b', hblock, hdb'⟩, hfe⟩
  · exact hne rfl
  · have hf := (hb.inside he).below hfe
    have hbb' := h.listed.apart d b b' hb (hf.part hblock) hd hdb'
    subst hbb'
    exact h.acyclic hf (TransGen.tail' hfe ⟨b, hblock, he⟩)

theorem pairwise_disjoint (hb : s.Part top b) (depth : Nat) :
    (s.block b).commands.Pairwise (Function.onFun List.Disjoint (s.walkTo depth)) := by
  refine (h.listed.nodup b hb).pairwise_of_forall_ne fun d hd e he hne => ?_
  intro c hcd hce
  have hcd := below_of_mem_walkTo hcd
  have hce := below_of_mem_walkTo hce
  rcases h.total (hb.inside hd) (hb.inside he) hcd hce with hde | hed
  · exact h.not_below_of_mem hb hd he hne hde
  · exact h.not_below_of_mem hb he hd (Ne.symm hne) hed

theorem nodup_walkTo (hc : s.Inside top c) (depth : Nat) : (s.walkTo depth c).Nodup := by
  induction depth generalizing c with
  | zero => exact .nil
  | succ depth ih =>
      rw [walkTo, List.nodup_cons, List.nodup_flatMap]
      refine ⟨fun hmem => ?_, fun d hd => ih (hc.below (.single (mem_children.1 hd))), ?_⟩
      · obtain ⟨d, hd, hcd⟩ := List.mem_flatMap.1 hmem
        exact h.acyclic hc (TransGen.tail' (below_of_mem_walkTo hcd) (mem_children.1 hd))
      · unfold children
        cases hblock : (s.command c).block with
        | none => exact .nil
        | some b => exact h.pairwise_disjoint (hc.part hblock) depth

end Rooted

/-! ## Scripts -/

section Scripts

variable {k : ScriptId} (h : s.Rooted (s.script k).block)

include h

theorem Rooted.mem_walkScript : c ∈ s.walkScript k ↔ s.Inside (s.script k).block c := by
  rw [walkScript, List.mem_flatMap]
  constructor
  · rintro ⟨d, hd, hc⟩
    exact ⟨d, hd, below_of_mem_walkTo hc⟩
  · rintro ⟨d, hd, hc⟩
    exact ⟨d, hd, (h.mem_walk ⟨d, hd, .refl⟩).2 hc⟩

theorem Rooted.nodup_walkScript : (s.walkScript k).Nodup := by
  rw [walkScript, List.nodup_flatMap]
  exact ⟨fun d hd => h.nodup_walkTo ⟨d, hd, .refl⟩ _, h.pairwise_disjoint (.inl rfl) _⟩

end Scripts

/-! ## Stores in which everything has one owner -/

namespace Owned

variable {pending : List CommandId} (h : s.Owned pending)

include h

/-- Every block is the root of a tree. -/
theorem rooted (top : BlockId) : s.Rooted top := by
  refine ⟨fun c hc => ?_, ⟨fun b _ => h.nodup b, fun c b b' _ _ => h.block_unique⟩,
    fun c d b _ _ => h.block_injective, fun c ⟨d, hd, hcd⟩ hblock => ?_⟩
  · obtain ⟨b, -, hb⟩ := hc.exists_part
    exact h.command_lt hb
  · exact h.acyclic c (TransGen.tail' hcd ⟨top, hblock, hd⟩)

theorem nodup_walk (c : CommandId) : (s.walk c).Nodup := by
  unfold walk
  cases s.commands.size with
  | zero => exact .nil
  | succ depth =>
      rw [walkTo, List.nodup_cons, List.nodup_flatMap]
      refine ⟨fun hmem => ?_, ?_⟩
      · obtain ⟨d, hd, hcd⟩ := List.mem_flatMap.1 hmem
        exact h.acyclic c (TransGen.tail' (below_of_mem_walkTo hcd) (mem_children.1 hd))
      · unfold children
        cases (s.command c).block with
        | none => exact ⟨fun d hd => absurd hd List.not_mem_nil, .nil⟩
        | some b =>
            exact ⟨fun d hd => (h.rooted b).nodup_walkTo ⟨d, hd, .refl⟩ depth,
              (h.rooted b).pairwise_disjoint (.inl rfl) depth⟩

theorem nodup_walkScript (k : ScriptId) : (s.walkScript k).Nodup :=
  (h.rooted _).nodup_walkScript

theorem inside_above {k : ScriptId} (htop : (s.block top).owner = some (.script k))
    (hd : s.Inside top d) (hdc : ReflTransGen s.Below d c) : s.Inside top c := by
  induction hdc using ReflTransGen.head_induction_on with
  | refl => exact hd
  | @head d e hde _ ih =>
      obtain ⟨b, hb, hdb⟩ := hd.exists_part
      obtain ⟨b', hblock, hdb'⟩ := hde
      have hbb' := h.block_unique hdb hdb'
      subst hbb'
      rcases hb with rfl | ⟨f, hf, hfblock⟩
      · exact absurd hblock (h.block_ne htop e)
      · exact ih (h.block_injective hfblock hblock ▸ hf)

end Owned

end MailFilter.Store
