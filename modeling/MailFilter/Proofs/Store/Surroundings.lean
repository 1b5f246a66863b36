import MailFilter.Proofs.Store.Changes
import MailFilter.Proofs.Store.Rooted

/-!
# What is below a command and around a block

Looking down from a command depends on the commands and lists below it, and looking up from a block on
the owners and parents on the way.  A command that changes its place takes what is below it along, and
is on the way up from no block that is not below it.
-/

namespace MailFilter.Store

open Relation

variable {s s' s'' : Store} {b p : BlockId} {c d e : CommandId}

/-! ## Below a command -/

/-- A block is the one of a command, or of a command below it. -/
def Beneath (s : Store) (c : CommandId) (b : BlockId) : Prop :=
  ∃ e, ReflTransGen s.Below e c ∧ (s.command e).block = some b

theorem Grounded.holdsBlock_iff (h : s.Grounded c) : s.holdsBlock c b = true ↔ s.Beneath c b := by
  simp only [holdsBlock, List.any_eq_true, beq_iff_eq, h.mem_walk, Beneath]

theorem Grounded.holdsBlock_eq_false (h : s.Grounded c) :
    s.holdsBlock c b = false ↔ ¬ s.Beneath c b := by
  rw [← h.holdsBlock_iff, Bool.not_eq_true]

theorem Grounded.not_beneath (h : s.Grounded c) (hc : c ∈ (s.block b).commands) :
    ¬ s.Beneath c b := by
  rintro ⟨e, he, hblock⟩
  exact h.acyclic c .refl (TransGen.head' ⟨b, hblock, hc⟩ he)

/-- What is below a command is the same in another store. -/
structure SameBelow (s s' : Store) (c : CommandId) : Prop where
  size : s'.commands.size = s.commands.size
  head : ∀ e, ReflTransGen s.Below e c → (s'.command e).head = (s.command e).head
  block : ∀ e, ReflTransGen s.Below e c → (s'.command e).block = (s.command e).block
  list : ∀ b, s.Beneath c b → (s'.block b).commands = (s.block b).commands

namespace SameBelow

theorem below (h : SameBelow s s' c) (hd : s.Below d c) : SameBelow s s' d :=
  ⟨h.size, fun e he => h.head e (he.tail hd), fun e he => h.block e (he.tail hd),
    fun b ⟨e, he, hb⟩ => h.list b ⟨e, he.tail hd, hb⟩⟩

theorem below_iff (h : SameBelow s s' c) (he : ReflTransGen s.Below e c) :
    s'.Below d e ↔ s.Below d e := by
  simp only [Below, h.block e he]
  exact exists_congr fun b => and_congr_right fun hb => by rw [h.list b ⟨e, he, hb⟩]

theorem reaches (h : SameBelow s s' c) :
    ReflTransGen s'.Below d c ↔ ReflTransGen s.Below d c := by
  constructor
  · intro hd
    induction hd using ReflTransGen.head_induction_on with
    | refl => exact .refl
    | head hde _ ih => exact .head ((h.below_iff ih).1 hde) ih
  · intro hd
    induction hd using ReflTransGen.head_induction_on with
    | refl => exact .refl
    | head hde he ih => exact .head ((h.below_iff he).2 hde) ih

theorem beneath_iff (h : SameBelow s s' c) : s'.Beneath c b ↔ s.Beneath c b := by
  simp only [Beneath, h.reaches]
  exact exists_congr fun e => and_congr_right fun he => by rw [h.block e he]

theorem trans (h : SameBelow s s' c) (h' : SameBelow s' s'' c) : SameBelow s s'' c :=
  ⟨h'.size.trans h.size, fun e he => (h'.head e (h.reaches.2 he)).trans (h.head e he),
    fun e he => (h'.block e (h.reaches.2 he)).trans (h.block e he),
    fun b hb => (h'.list b (h.beneath_iff.2 hb)).trans (h.list b hb)⟩

theorem children_eq (h : SameBelow s s' c) : s'.children c = s.children c := by
  rw [children, children, h.block c .refl]
  cases hblock : (s.command c).block with
  | none => rfl
  | some b => exact h.list b ⟨c, .refl, hblock⟩

theorem walkTo_eq (h : SameBelow s s' c) (depth : Nat) : s'.walkTo depth c = s.walkTo depth c := by
  induction depth generalizing c with
  | zero => rfl
  | succ depth ih =>
      rw [walkTo, walkTo, h.children_eq]
      exact congrArg (c :: ·) (List.flatMap_congr fun d hd => ih (h.below (mem_children.1 hd)))

theorem walk_eq (h : SameBelow s s' c) : s'.walk c = s.walk c := by
  rw [walk, walk, h.size, h.walkTo_eq]

theorem heightTo_eq (h : SameBelow s s' c) (depth : Nat) :
    s'.heightTo depth c = s.heightTo depth c := by
  induction depth generalizing c with
  | zero => rfl
  | succ depth ih =>
      rw [heightTo, heightTo, h.head c .refl, h.block c .refl]
      cases hblock : (s.command c).block with
      | none => rfl
      | some b =>
          have hmap : (s.block b).commands.map (s'.heightTo depth) =
              (s.block b).commands.map (s.heightTo depth) :=
            List.map_congr_left fun d hd => ih (h.below ⟨b, hblock, hd⟩)
          simp only [h.list b ⟨c, .refl, hblock⟩, hmap]

theorem height_eq (h : SameBelow s s' c) : s'.height c = s.height c := by
  rw [height, height, h.size, h.heightTo_eq]

theorem holdsBlock_eq (h : SameBelow s s' c) (hc : s.Grounded c) :
    s'.holdsBlock c b = s.holdsBlock c b := by
  have hblock : ∀ d ∈ s.walk c, (s'.command d).block = (s.command d).block := fun d hd =>
    h.block d (hc.mem_walk.1 hd)
  rw [Bool.eq_iff_iff]
  simp only [holdsBlock, h.walk_eq, List.any_eq_true]
  exact exists_congr fun d => and_congr_right fun hd => by rw [hblock d hd]

end SameBelow

theorem sameBelow_modifyBlock (f : BlockCell → BlockCell) (hb : ¬ s.Beneath c b) :
    SameBelow s (s.modifyBlock b f) c := by
  refine ⟨rfl, fun _ _ => rfl, fun _ _ => rfl, fun d hd => ?_⟩
  have hne : d ≠ b := fun hdb => hb (hdb ▸ hd)
  rw [block_modifyBlock_of_ne f hne]

theorem sameBelow_modifyOwner (b : BlockId) (o : Owner) :
    SameBelow s (s.modifyBlock b ({ · with owner := some o })) c :=
  ⟨rfl, fun _ _ => rfl, fun _ _ => rfl, fun d _ => commands_modifyOwner b o d⟩

theorem sameBelow_modifyParent (d : CommandId) (place : Option BlockId) :
    SameBelow s (s.modifyCommand d ({ · with parent := place })) c :=
  ⟨Array.size_modify, fun e _ => head_modifyParent d place e,
    fun e _ => blockOf_modifyParent d place e, fun _ _ => rfl⟩

theorem sameBelow_list {i : Nat} (hb : ¬ s.Beneath c b) :
    SameBelow s (s.list b i c) c := by
  refine (sameBelow_modifyBlock (fun cell => { cell with commands := cell.commands.insertIdx i c })
    hb).trans ?_
  exact sameBelow_modifyParent (s := s.modifyBlock b _) c (some b)

theorem sameBelow_move {source : BlockId} {i : Nat} (hsource : ¬ s.Beneath c source)
    (hb : ¬ s.Beneath c b) :
    SameBelow s ((s.unlist source c).list b i c) c := by
  have hunlist : SameBelow s (s.unlist source c) c := sameBelow_modifyBlock _ hsource
  exact hunlist.trans (sameBelow_list fun hb' => hb (hunlist.beneath_iff.1 hb'))

/-! ## Around a block -/

/-- On the way up from these blocks, owners and parents are the same in another store. -/
structure SameAbove (s s' : Store) (blocks : BlockId → Prop) : Prop where
  owner : ∀ b, blocks b → (s'.block b).owner = (s.block b).owner
  parent : ∀ b c, blocks b → (s.block b).owner = some (.command c) →
    (s'.command c).parent = (s.command c).parent
  closed : ∀ b c p, blocks b → (s.block b).owner = some (.command c) →
    (s.command c).parent = some p → blocks p

namespace SameAbove

variable {blocks : BlockId → Prop} (h : SameAbove s s' blocks) (hb : blocks b)

include h hb

theorem around_eq (fuel : Nat) (met : List CommandId) : s'.around fuel met b = s.around fuel met b := by
  induction fuel generalizing b met with
  | zero => rfl
  | succ fuel ih =>
      rw [around, around, h.owner b hb]
      cases howner : (s.block b).owner with
      | none => rfl
      | some o =>
          cases o with
          | script k => rfl
          | command c =>
              simp only [h.parent b c hb howner]
              cases hparent : (s.command c).parent with
              | none => rfl
              | some p => simp only [ih (h.closed b c p hb howner hparent)]

theorem scriptAbove?_eq (fuel : Nat) : s'.scriptAbove? fuel b = s.scriptAbove? fuel b := by
  induction fuel generalizing b with
  | zero => rfl
  | succ fuel ih =>
      rw [scriptAbove?, scriptAbove?, h.owner b hb]
      cases howner : (s.block b).owner with
      | none => rfl
      | some o =>
          cases o with
          | script k => rfl
          | command c =>
              simp only [h.parent b c hb howner]
              cases hparent : (s.command c).parent with
              | none => rfl
              | some p => exact ih (h.closed b c p hb howner hparent)

theorem level_eq (hsize : s'.commands.size = s.commands.size) : s'.level b = s.level b := by
  rw [level, level, hsize, h.around_eq hb]

theorem scriptOf?_eq (hsize : s'.blocks.size = s.blocks.size) : s'.scriptOf? b = s.scriptOf? b := by
  rw [scriptOf?, scriptOf?, hsize, h.scriptAbove?_eq hb]

end SameAbove

theorem SameLinks.sameAbove (hsame : SameLinks s s') : SameAbove s s' fun _ => True :=
  ⟨fun b _ => hsame.owner b, fun _ c _ _ => hsame.parent c, fun _ _ _ _ _ _ => trivial⟩

theorem suffix_around (fuel : Nat) (met : List CommandId) (b : BlockId) :
    met <:+ s.around fuel met b := by
  induction fuel generalizing b met with
  | zero => exact List.suffix_rfl
  | succ fuel ih =>
      rw [around]
      split
      · next d _ =>
          split
          · exact List.suffix_rfl
          · split
            · exact (List.suffix_cons d met).trans (ih _ _)
            · exact List.suffix_cons d met
      · exact List.suffix_rfl

section Arrival

variable (howner : ∀ b, (s'.block b).owner = (s.block b).owner)
  (hparent : ∀ d, (s'.command d).parent = if d = c then some b else (s.command d).parent)

include howner hparent

/-- A block that a command comes to has the commands around it that it had, if that one is none of
them. -/
theorem around_of_not_mem {fuel : Nat} {met : List CommandId} {p : BlockId}
    (hc : c ∉ s.around fuel met p) : s'.around fuel met p = s.around fuel met p := by
  induction fuel generalizing p met with
  | zero => rfl
  | succ fuel ih =>
      rw [around, howner]
      rw [around] at hc ⊢
      split
      · next d hd =>
          simp only [hd] at hc
          split
          · rfl
          · next hnew =>
              rw [if_neg hnew] at hc
              have hdc : d ≠ c := by
                rintro rfl
                refine hc ?_
                split
                · exact (suffix_around _ _ _).subset List.mem_cons_self
                · exact List.mem_cons_self
              rw [hparent, if_neg hdc]
              split
              · next hp =>
                  simp only [hp] at hc
                  exact ih hc
              · rfl
      · rfl

/-- Where the command is around the block itself, the way up ends with it. -/
theorem around_suffix {fuel : Nat} {met : List CommandId} {p : BlockId}
    (hmet : p = b ∨ ∃ d ∈ met, (s.block b).owner = some (.command d)) :
    s'.around fuel met p <:+ s.around fuel met p ∧
      ((s.command c).parent = none → s'.around fuel met p = s.around fuel met p) := by
  have hend : ∀ fuel met, (∃ d ∈ met, (s.block b).owner = some (.command d)) →
      s'.around fuel met b = met := by
    rintro (_ | fuel) met ⟨d, hd, hown⟩
    · rfl
    · simp only [around, howner, hown, List.contains_iff_mem.2 hd, if_true]
  induction fuel generalizing p met with
  | zero => exact ⟨List.suffix_rfl, fun _ => rfl⟩
  | succ fuel ih =>
      rw [around, around, howner]
      cases hown : (s.block p).owner with
      | none => exact ⟨List.suffix_rfl, fun _ => rfl⟩
      | some o =>
          cases o with
          | script k => exact ⟨List.suffix_rfl, fun _ => rfl⟩
          | command d =>
              have hmore : ∃ e ∈ d :: met, (s.block b).owner = some (.command e) := by
                rcases hmet with rfl | ⟨e, he, hb⟩
                · exact ⟨d, List.mem_cons_self, hown⟩
                · exact ⟨e, List.mem_cons_of_mem d he, hb⟩
              dsimp only
              by_cases hin : met.contains d = true
              · rw [if_pos hin, if_pos hin]
                exact ⟨List.suffix_rfl, fun _ => rfl⟩
              · rw [if_neg hin, if_neg hin, hparent]
                by_cases hdc : d = c
                · subst hdc
                  rw [if_pos rfl]
                  dsimp only
                  rw [hend fuel _ hmore]
                  cases (s.command d).parent with
                  | none => exact ⟨List.suffix_rfl, fun _ => rfl⟩
                  | some q => exact ⟨suffix_around fuel _ q, nofun⟩
                · rw [if_neg hdc]
                  cases (s.command d).parent with
                  | none => exact ⟨List.suffix_rfl, fun _ => rfl⟩
                  | some q => exact ih (.inr hmore)

end Arrival

/-- From these blocks the way up goes over links that agree. -/
structure Upward (s : Store) (blocks : BlockId → Prop) : Prop where
  own : ∀ b c, blocks b → (s.block b).owner = some (.command c) → (s.command c).block = some b
  listed : ∀ b c p, blocks b → (s.block b).owner = some (.command c) →
    (s.command c).parent = some p → blocks p ∧ c ∈ (s.block p).commands

theorem Upward.sameAbove {blocks : BlockId → Prop} (h : s.Upward blocks)
    (howner : ∀ b, (s'.block b).owner = (s.block b).owner)
    (hparent : ∀ d, d ≠ c → (s'.command d).parent = (s.command d).parent) :
    SameAbove s s' fun b => blocks b ∧ ¬ s.Beneath c b := by
  refine ⟨fun b _ => howner b, fun b d ⟨hb, hout⟩ hd => hparent d ?_,
    fun b d p ⟨hb, hout⟩ hd hp => ?_⟩
  · rintro rfl
    exact hout ⟨d, .refl, h.own b d hb hd⟩
  · obtain ⟨hblocks, hlisted⟩ := h.listed b d p hb hd hp
    refine ⟨hblocks, fun ⟨e, he, hblock⟩ => hout ⟨d, ?_, h.own b d hb hd⟩⟩
    exact .head ⟨p, hblock, hlisted⟩ he

end MailFilter.Store
