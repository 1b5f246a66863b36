import MailFilter.Proofs.Store.Changes
import MailFilter.Proofs.Store.Checks

/-!
# Operations keep one owner

Every operation that succeeds leaves a store in which everything has one owner.
-/

namespace MailFilter.Store

open Relation

variable {s s' : Store} {lost : List CommandId}

/-! ## Links that stay -/

theorem sameLinks_modifyHead (c : CommandId) (f : Head Mark Value → Head Mark Value) :
    SameLinks s (s.modifyCommand c fun cell => { cell with head := f cell.head }) := by
  refine ⟨fun d => ?_, fun d => ?_, fun _ => rfl, fun _ => rfl, rfl, fun _ => rfl⟩
  · exact keep_modifyCommand (f := fun cell => { cell with head := f cell.head })
      (g := CommandCell.block) (fun _ => rfl) c d
  · exact keep_modifyCommand (f := fun cell => { cell with head := f cell.head })
      (g := CommandCell.parent) (fun _ => rfl) c d

theorem sameLinks_modifyCapabilities (k : ScriptId) (f : List Value → List Value) :
    SameLinks s (s.modifyScript k fun cell => { cell with capabilities := f cell.capabilities }) := by
  refine ⟨fun _ => rfl, fun _ => rfl, fun _ => rfl, fun _ => rfl, Array.size_modify, fun j => ?_⟩
  exact keep_modifyScript (f := fun cell => { cell with capabilities := f cell.capabilities })
    (g := ScriptCell.block) (fun _ => rfl) k j

theorem sameLinks_modifyOwner {c : CommandId} {b : BlockId}
    (howner : (s.block b).owner = some (.command c)) :
    SameLinks s (s.modifyBlock b ({ · with owner := some (.command c) })) := by
  have hb : b < s.blocks.size := lt_of_owner howner
  refine ⟨fun _ => rfl, fun _ => rfl, fun d => ?_, commands_modifyOwner b (.command c), rfl,
    fun _ => rfl⟩
  rw [block_modifyBlock _ _ _ _ hb]
  split
  · next hdb => rw [hdb, howner]
  · rfl

/-! ## Commands -/

theorem not_below_of_holdsBlock (h : s.Owned lost) {c : CommandId} {b : BlockId}
    (hc : c < s.commands.size) (houtside : s.holdsBlock c b = false) :
    ∀ e, (s.command e).block = some b → ¬ ReflTransGen s.Below e c := by
  intro e hb he
  rw [holdsBlock_of_below h hc hb he] at houtside
  cases houtside

theorem InsertChecked.relocated (h : s.Owned lost) {b : BlockId} {index limit : Value} {c : CommandId}
    {i : Nat} (hchecked : s.InsertChecked b index c limit i) (hb : b < s.blocks.size)
    (hc : c < s.commands.size) : Relocated s (s.list b i c) c (some b) := by
  refine relocated_list hc hb hchecked.inside h.nodup fun d hd => ?_
  have := h.parent_of_mem hd
  rw [hchecked.unlisted] at this
  cases this

theorem InsertChecked.owned (h : s.Owned lost) {b : BlockId} {index limit : Value} {c : CommandId}
    {i : Nat} (hchecked : s.InsertChecked b index c limit i) (hb : b < s.blocks.size)
    (hc : c < s.commands.size) : (s.list b i c).Owned lost := by
  refine h.relocate (hchecked.relocated h hb hc) (h.not_lost hchecked.unlisted) fun b' hb' e he => ?_
  cases hb'
  exact not_below_of_holdsBlock h hc hchecked.outside e he

theorem owned_insert (h : s.Owned lost) {b : BlockId} {index : Value} {c : CommandId} {limit : Value}
    (hb : b < s.blocks.size) (hc : c < s.commands.size) (hok : s.insert b index c limit = .ok s') :
    s'.Owned lost := by
  obtain ⟨i, hchecked, rfl⟩ := insert_ok hok
  have hmove := hchecked.relocated h hb hc
  have hlist := hchecked.owned h hb hc
  cases hblock : (s.command c).block with
  | none => exact hlist
  | some own =>
      exact hlist.sameLinks (sameLinks_modifyOwner (by rw [hmove.owner, h.own c own hblock]))

theorem sameLinks_forget (b : BlockId) (c : CommandId) : SameLinks s (s.forget b c) := by
  unfold forget
  split
  · next k _ =>
      split
      · exact sameLinks_modifyCapabilities k fun _ => []
      · exact .refl
  · exact .refl

theorem owned_remove (h : s.Owned lost) {c : CommandId} (hok : s.remove c = .ok s') :
    s'.Owned lost := by
  obtain ⟨b, -, hmem, rfl⟩ := remove_ok hok
  have hsame := sameLinks_forget (s := s) b c
  have hforgot := h.sameLinks hsame
  rw [← hsame.listed] at hmem
  refine hforgot.relocate (relocated_unlist hforgot hmem) (hforgot.not_lost_of_mem hmem) ?_
  intro b' hb'
  cases hb'

theorem owned_replace (h : s.Owned lost) {c : CommandId} {arguments : List (Argument Mark Value)}
    {limit : Value} (hok : s.replace c arguments limit = .ok s') : s'.Owned lost := by
  obtain ⟨-, rfl⟩ := replace_ok hok
  exact h.sameLinks (sameLinks_modifyHead c fun head => { head with arguments })

theorem length_unlist {c : CommandId} {source : BlockId} (hc : c ∈ (s.block source).commands)
    (b : BlockId) : ((s.unlist source c).block b).commands.length =
      (s.block b).commands.length - if b == source then 1 else 0 := by
  rw [block_unlist (lt_of_mem hc)]
  by_cases hbs : b = source
  · subst hbs
    simp [List.length_erase_of_mem hc]
  · simp [hbs]

theorem MoveChecked.le_length {c : CommandId} {source b : BlockId} {index limit : Value} {i : Nat}
    (hchecked : s.MoveChecked c source b index limit i) :
    i ≤ ((s.unlist source c).block b).commands.length :=
  (length_unlist hchecked.listed b).symm ▸ hchecked.inside

theorem MoveChecked.relocated (h : s.Owned lost) {c : CommandId} {source b : BlockId}
    {index limit : Value} {i : Nat} (hchecked : s.MoveChecked c source b index limit i)
    (hb : b < s.blocks.size) : Relocated s ((s.unlist source c).list b i c) c (some b) :=
  relocated_move h hchecked.listed hb hchecked.le_length

theorem owned_move (h : s.Owned lost) {c : CommandId} {b : BlockId} {index limit : Value}
    (hb : b < s.blocks.size) (hok : s.move c b index limit = .ok s') : s'.Owned lost := by
  obtain ⟨source, i, hchecked, rfl⟩ := move_ok hok
  refine h.relocate (hchecked.relocated h hb) (h.not_lost_of_mem hchecked.listed)
    fun b' hb' e he => ?_
  cases hb'
  exact not_below_of_holdsBlock h (lt_of_parent hchecked.parent) hchecked.outside e he

theorem owned_nameRule (h : s.Owned lost) {c : CommandId} {name : Option Value}
    (hok : s.nameRule c name = .ok s') : s'.Owned lost := by
  obtain ⟨comments, -, rfl⟩ := nameRule_ok hok
  exact h.sameLinks (sameLinks_modifyHead c fun head => { head with comments })

/-! ## Capabilities -/

theorem block_addRequire (h : s.Owned lost) {k : ScriptId} (hk : k < s.scripts.size) (b : BlockId) :
    (s.addRequire k).block b = if b = (s.script k).block then
      { s.block b with commands := s.commands.size :: (s.block b).commands } else s.block b :=
  block_modifyBlock s _ b _ (lt_of_owner (h.top k hk))

theorem command_addRequire (k : ScriptId) (c : CommandId) :
    (s.addRequire k).command c = if c = s.commands.size then
      ⟨⟨.text "require", [], [], ⟨.nowhere, s.nextMark⟩⟩, none, some (s.script k).block⟩
      else s.command c := by
  show (s.commands.push _).getD c default = _
  rw [command, Array.getD_eq_getD_getElem?, Array.getElem?_push, Array.getD_eq_getD_getElem?]
  split <;> rfl

theorem relocated_addRequire (h : s.Owned lost) {k : ScriptId} (hk : k < s.scripts.size) :
    Relocated s (s.addRequire k) s.commands.size (some (s.script k).block) := by
  have hunlisted : ∀ b, s.commands.size ∉ (s.block b).commands := fun b hmem =>
    Nat.lt_irrefl _ (h.command_lt hmem)
  refine ⟨fun d => ?_, fun d => ?_, fun d => ?_, fun d => ?_, fun d b => ?_, rfl⟩
  · rw [command_addRequire]
    split
    · next hd =>
        rw [hd, command_of_size_le (Nat.le_refl _)]
        rfl
    · rfl
  · rw [command_addRequire]
    split <;> rfl
  · rw [block_addRequire h hk]
    split <;> rfl
  · rw [block_addRequire h hk]
    split
    · exact List.nodup_cons.2 ⟨hunlisted d, h.nodup d⟩
    · exact h.nodup d
  · rw [block_addRequire h hk]
    by_cases hbk : b = (s.script k).block
    · subst hbk
      by_cases hd : d = s.commands.size <;> simp [hd]
    · rw [if_neg hbk]
      split
      · next hd =>
          subst hd
          simpa [Ne.symm hbk] using hunlisted b
      · rfl

theorem owned_addRequire (h : s.Owned lost) {k : ScriptId} (hk : k < s.scripts.size) :
    (s.addRequire k).Owned lost := by
  have hnew : s.commands.size ∉ lost := fun hlost => Nat.lt_irrefl _ (h.lt_of_lost _ hlost)
  refine h.relocate (relocated_addRequire h hk) hnew fun b hb e he => ?_
  cases hb
  exact absurd he (h.block_ne (h.top k hk) e)

theorem owned_declare (h : s.Owned lost) {k : ScriptId} {name : String} {added : Bool}
    (hk : k < s.scripts.size) (hok : s.declare k name = .ok (added, s')) : s'.Owned lost := by
  rcases declare_ok hok with rfl | ⟨-, rfl⟩
  · exact h
  · refine Owned.sameLinks ?_ (sameLinks_modifyCapabilities k fun capabilities =>
      capabilities ++ [.text (Text.trimmed name)])
    split
    · exact owned_addRequire h hk
    · exact h

theorem scripts_size_declare {k : ScriptId} {name : String} {added : Bool}
    (hok : s.declare k name = .ok (added, s')) : s'.scripts.size = s.scripts.size := by
  rcases declare_ok hok with rfl | ⟨-, rfl⟩
  · rfl
  · rw [modifyScript, Array.size_modify]
    split <;> rfl

theorem owned_declared (h : s.Owned lost) {k : ScriptId} (hk : k < s.scripts.size)
    (hall : Declared k s s') : s'.Owned lost := by
  have hkeeps := hall.keeps (P := fun s => s.Owned lost ∧ k < s.scripts.size)
    (fun hok hs => ⟨owned_declare hs.1 hs.2 hok, (scripts_size_declare hok).symm ▸ hs.2⟩)
  exact (hkeeps ⟨h, hk⟩).1

theorem scripts_size_declared {k : ScriptId} (hall : Declared k s s') :
    s'.scripts.size = s.scripts.size :=
  hall.keeps (P := fun s' => s'.scripts.size = s.scripts.size)
    (fun hok hs => (scripts_size_declare hok).trans hs) rfl

/-- What every declaration keeps in a store with one owner, all of them keep. -/
theorem Owned.declared_keeps (h : s.Owned lost) {P : Store → Prop} {k : ScriptId}
    (hk : k < s.scripts.size)
    (hstep : ∀ {s s' : Store} {name : String} {added : Bool}, s.Owned lost → k < s.scripts.size →
      s.declare k name = .ok (added, s') → P s → P s')
    (hall : Declared k s s') (hs : P s) : P s' := by
  have hkeeps := hall.keeps (P := fun s => s.Owned lost ∧ k < s.scripts.size ∧ P s)
    (fun hok ⟨h, hk, hs⟩ =>
      ⟨owned_declare h hk hok, (scripts_size_declare hok).symm ▸ hk, hstep h hk hok hs⟩)
  exact (hkeeps ⟨h, hk, hs⟩).2.2

end MailFilter.Store
