import MailFilter.Proofs.Store.RequireFirst
import MailFilter.Proofs.Store.Sharing
import MailFilter.Proofs.Store.Surroundings

/-!
# Owners that have their blocks

In a run a block is owned by a command only if it is the block of that command, in a script or in a tree
of its own.  Where every command is in the block that it names too, the way up from a block goes through
what it is inside of.
-/

namespace MailFilter.Store

open Relation

variable {s s' : Store} {lost : List CommandId}

/-- A block that says that a command owns it is the block of that command. -/
def Backed (s : Store) : Prop :=
  ∀ c b, (s.block b).owner = some (.command c) → (s.command c).block = some b

/-- The commands around a block have it beneath them, if none is lost. -/
theorem Backed.beneath_of_mem_around (hback : s.Backed)
    (hlisted : ∀ c b, (s.command c).parent = some b → c ∈ (s.block b).commands) {c : CommandId}
    {b : BlockId} {fuel : Nat} {met : List CommandId} (hc : c ∈ s.around fuel met b) :
    c ∈ met ∨ s.Beneath c b := by
  induction fuel generalizing b met with
  | zero => exact .inl hc
  | succ fuel ih =>
      rw [around] at hc
      split at hc
      · next d howner =>
          have hown := hback d b howner
          split at hc
          · exact .inl hc
          · split at hc
            · next p hparent =>
                rcases ih hc with hmem | ⟨e, hec, hblock⟩
                · rcases List.mem_cons.1 hmem with rfl | hmem
                  · exact .inr ⟨c, .refl, hown⟩
                  · exact .inl hmem
                · exact .inr ⟨d, .head ⟨p, hblock, hlisted d p hparent⟩ hec, hown⟩
            · rcases List.mem_cons.1 hc with rfl | hmem
              · exact .inr ⟨c, .refl, hown⟩
              · exact .inl hmem
      · exact .inl hc

theorem Backed.congr (hback : s.Backed)
    (hblock : ∀ c, (s'.command c).block = (s.command c).block)
    (howner : ∀ b, (s'.block b).owner = (s.block b).owner) : s'.Backed := by
  intro c b hb
  rw [howner] at hb
  rw [hblock]
  exact hback c b hb

theorem Relocated.backed {c : CommandId} {place : Option BlockId} (hmove : Relocated s s' c place)
    (hback : s.Backed) : s'.Backed :=
  hback.congr hmove.block hmove.owner

theorem SameLinks.backed (hsame : SameLinks s s') (hback : s.Backed) : s'.Backed :=
  hback.congr hsame.block hsame.owner

/-! ## Trees -/

theorem backed_empty : empty.Backed := by
  intro c b hb
  rw [block_of_size_le (Nat.zero_le b)] at hb
  cases hb

theorem Backed.extend (hback : s.Backed) (hext : Extends s s')
    (hnew : ∀ c b, s.blocks.size ≤ b → (s'.block b).owner = some (.command c) →
      (s'.command c).block = some b) : s'.Backed := by
  intro c b hb
  rcases Nat.lt_or_ge b s.blocks.size with hlt | hge
  · rw [hext.block b hlt] at hb
    have hblock := hback c b hb
    rwa [hext.command c (lt_of_block hblock)]
  · exact hnew c b hge hb

theorem Backed.modifyList (hback : s.Backed) (b : BlockId) (ids : List CommandId) :
    (s.modifyBlock b ({ · with commands := ids })).Backed :=
  hback.congr (fun _ => rfl)
    (keep_modifyBlock (g := BlockCell.owner) (f := ({ · with commands := ids })) (fun _ => rfl) b)

theorem Backed.pushBlock (hback : s.Backed) {cell : BlockCell}
    (howner : ∀ c, cell.owner ≠ some (.command c)) : (s.pushBlock cell).1.Backed := by
  have hpush : (s.pushBlock cell).1.blocks = s.blocks.push cell := rfl
  intro c b hb
  rw [block_push hpush] at hb
  split at hb
  · exact absurd hb (howner c)
  · exact hback c b hb

section Trees

variable {α τ : Type} [Located α] [Leaf τ]

theorem backed_addCell (hback : s.Backed) (parent : Option BlockId) (head : Head α τ) :
    (s.addCell parent head none).1.Backed := by
  have hpush : (s.addCell parent head none).1.commands = s.commands.push ⟨_, none, parent⟩ := rfl
  refine hback.extend (extends_push hpush (.inl rfl) rfl) fun c b hb howner => ?_
  have howner : (s.block b).owner = some (.command c) := howner
  rw [block_of_size_le hb] at howner
  cases howner

theorem backed_open (hback : s.Backed) (parent : Option BlockId) (head : Head α τ)
    (trailing : List (Comment Value)) (opening : Pos) :
    ((s.addCell parent head (some s.blocks.size)).1.pushBlock
      ⟨[], trailing, opening, some (.command s.commands.size)⟩).1.Backed := by
  set opened := ((s.addCell parent head (some s.blocks.size)).1.pushBlock
    ⟨[], trailing, opening, some (.command s.commands.size)⟩).1
  have hcommands : opened.commands = s.commands.push ⟨_, some s.blocks.size, parent⟩ := rfl
  have hblocks : opened.blocks =
      s.blocks.push ⟨[], trailing, opening, some (.command s.commands.size)⟩ := rfl
  refine hback.extend (extends_push hcommands (.inr ⟨_, hblocks⟩) rfl) fun c b hb howner => ?_
  rw [block_push hblocks] at howner
  split at howner
  · next hsize =>
      cases howner
      rw [command_push hcommands, if_pos rfl, hsize]
  · rw [block_of_size_le hb] at howner
    cases howner

mutual

theorem backed_addCommand (t : Command α τ) {s : Store} (hback : s.Backed)
    (parent : Option BlockId) : (s.addCommand parent t).1.Backed := by
  match t with
  | .simple head =>
      rw [addCommand]
      exact backed_addCell hback parent head
  | .control head cs trailing opening =>
      have hopen := backed_open hback parent head (trailing.map (·.map Leaf.value)) opening
      rw [addCommand]
      exact (backed_addCommands cs hopen s.blocks.size).modifyList _ _

theorem backed_addCommands (ts : List (Command α τ)) {s : Store} (hback : s.Backed) (b : BlockId) :
    (s.addCommands b ts).1.Backed := by
  match ts with
  | [] =>
      rw [addCommands]
      exact hback
  | t :: ts =>
      rw [addCommands]
      exact backed_addCommands ts (backed_addCommand t hback (some b)) b

end

theorem backed_addScript (hback : s.Backed) (t : Script α τ) : (s.addScript t).1.Backed := by
  have htop : (s.withTop t).Backed := hback.pushBlock nofun
  exact (backed_addCommands t.commands htop s.blocks.size).modifyList s.blocks.size _

end Trees

/-! ## Edits -/

theorem backed_declare (h : s.Owned lost) {k : ScriptId} (hk : k < s.scripts.size) {name : String}
    {added : Bool} (hok : s.declare k name = .ok (added, s')) (hback : s.Backed) : s'.Backed := by
  rcases declare_ok hok with rfl | ⟨-, rfl⟩
  · exact hback
  · refine (sameLinks_modifyCapabilities k fun capabilities =>
      capabilities ++ [.text (Text.trimmed name)]).backed ?_
    split
    · exact (relocated_addRequire h hk).backed hback
    · exact hback

theorem backed_declared (h : s.Owned lost) {k : ScriptId} (hk : k < s.scripts.size)
    (hall : Declared k s s') (hback : s.Backed) : s'.Backed :=
  h.declared_keeps (P := Backed) hk (fun h hk hok => backed_declare h hk hok) hall hback

theorem backed_result (h : s.Owned lost) {e : Edit} (hknown : e.known s) (hok : e.result s = .ok s')
    (hback : s.Backed) : s'.Backed := by
  cases e with
  | insert b index c limit =>
      exact (relocated_insert h hknown.1 hknown.2 (leaving_eq_ok.1 hok)).1.backed hback
  | append b c limit =>
      exact (relocated_insert h hknown.1 hknown.2 (leaving_eq_ok.1 hok)).1.backed hback
  | remove c =>
      obtain ⟨b, -, hmem, rfl⟩ := remove_ok (leaving_eq_ok.1 hok)
      have hsame := sameLinks_forget (s := s) b c
      exact (relocated_unlist (h.sameLinks hsame) (hsame.listed b ▸ hmem)).backed (hsame.backed hback)
  | replace c arguments limit =>
      obtain ⟨-, rfl⟩ := replace_ok (leaving_eq_ok.1 hok)
      exact (sameLinks_modifyHead c fun head => { head with arguments }).backed hback
  | move c b index limit =>
      obtain ⟨source, i, hchecked, rfl⟩ := move_ok hok
      exact (hchecked.relocated h hknown.1).backed hback
  | declare k name =>
      obtain ⟨added, hdeclare⟩ := ok_of_declare_result hok
      exact backed_declare h hknown hdeclare hback
  | requireAll r k => exact backed_declared h hknown (declared_of_result hok) hback
  | nameRule c name =>
      obtain ⟨comments, -, rfl⟩ := nameRule_ok (leaving_eq_ok.1 hok)
      exact (sameLinks_modifyHead c fun head => { head with comments }).backed hback

theorem backed_leads (h : s.Owned lost) {e : Edit} (hleads : e.Leads s s') (hback : s.Backed) :
    s'.Backed := by
  cases hleads with
  | same => exact hback
  | ok hknown hok => exact backed_result h hknown hok hback
  | @stranded c source => exact hback.congr (fun _ => rfl) (owner_unlist source)
  | declared hk hall => exact backed_declared h hk hall hback

/-! ## Runs -/

theorem backed_act (h : s.Owned lost) (hback : s.Backed) (a : Action) : (s.act a).Backed := by
  match a with
  | .step (@Step.script _ _ _ _ t) => exact backed_addScript hback t
  | .step (@Step.command _ _ _ _ t) => exact backed_addCommand t hback none
  | .step (.edit e) => exact backed_leads h (leads_after e) hback
  | .assign c arguments =>
      rw [act]
      split
      · exact hback
      · exact (sameLinks_modifyHead c fun head => { head with arguments }).backed hback

end MailFilter.Store
