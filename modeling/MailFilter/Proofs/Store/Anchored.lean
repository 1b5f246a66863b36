import MailFilter.Proofs.Store.Findings
import MailFilter.Proofs.Store.RequireFirst
import MailFilter.Proofs.Store.Sharing

/-!
# Capabilities in any store

A script that an audit finds sound keeps its capabilities with the `require` at its front, whatever the
rest of the store is like, as long as no command comes into a block that has the top block of the script
for its own.
-/

namespace MailFilter.Store

variable {s s' : Store} {k : ScriptId} {b : BlockId} {c d : CommandId}

/-- The top block of a script belongs to it and lists what says so, and its capabilities, texts that
differ in lower case, have a `require` at the front of that list. -/
structure Anchored (s : Store) (k : ScriptId) : Prop where
  known : k < s.scripts.size
  top : (s.block (s.script k).block).owner = some (.script k)
  once : (s.block (s.script k).block).commands.Nodup
  parent : ∀ c ∈ (s.block (s.script k).block).commands,
    (s.command c).parent = some (s.script k).block
  distinct : ∃ names : List String, (s.script k).capabilities = names.map Value.text ∧
    (names.map Text.lower).Nodup
  held : (s.script k).capabilities ≠ [] → (s.requireOf? k).isSome = true

theorem map_plain_text (names : List String) : (names.map Value.text).map Value.plain = names := by
  rw [List.map_map]
  exact List.map_id names

theorem exists_names {capabilities : List Value} (h : ∀ v ∈ capabilities, v.fitText = .ok ()) :
    ∃ names : List String, capabilities = names.map Value.text := by
  induction capabilities with
  | nil => exact ⟨[], rfl⟩
  | cons v vs ih =>
      obtain ⟨hv, hvs⟩ := List.forall_mem_cons.mp h
      obtain ⟨names, rfl⟩ := ih hvs
      cases v with
      | text name => exact ⟨name :: names, rfl⟩
      | _ => cases hv

theorem anchored_of_audit {n : Nat} (hk : k < s.scripts.size) (haudit : s.audit k = .ok n) :
    s.Anchored k := by
  obtain ⟨hsound, hfits, -⟩ := sound_of_audit haudit
  obtain ⟨names, hnames⟩ := exists_names hfits.capabilities
  have hdistinct := hsound.distinct
  rw [hnames, map_plain_text] at hdistinct
  exact ⟨hk, hsound.top, hsound.listed.nodup _ (.inl rfl), fun c hc => hsound.parent c _ (.inl rfl) hc,
    ⟨names, hnames, hdistinct⟩, hsound.held⟩

namespace Anchored

section Steps

variable (h : s.Anchored k)

include h

theorem scriptOf? : s.scriptOf? (s.script k).block = some k := scriptOf?_of_owner h.top

theorem parent_of_requireOf? (hc : s.requireOf? k = some c) :
    (s.command c).parent = some (s.script k).block :=
  h.parent c (List.mem_of_mem_head? (requireOf?_eq_some.1 hc).1)

theorem requireOf?_ne (hkeep : (s.command c).parent.any (s.isRequireOf · c) = false) :
    s.requireOf? k ≠ some c := by
  intro hreq
  rw [h.parent_of_requireOf? hreq, Option.any_some, isRequireOf_eq_false h.scriptOf?] at hkeep
  exact hkeep hreq

theorem place_ne_zero {index : Value} {i : Nat} (hne : s.requireOf? k ≠ some c)
    (hcheck : s.checkRequireSlot b index c = .ok ())
    (hfirst : index.compareInt? 0 = some (some .eq) ↔ i = 0)
    (hcapabilities : (s.script k).capabilities ≠ []) (hb : (s.script k).block = b) : i ≠ 0 := by
  obtain ⟨d, hd⟩ := Option.isSome_iff_exists.1 (h.held hcapabilities)
  have hdc : d ≠ c := by
    rintro rfl
    exact hne hd
  exact Store.place_ne_zero h.scriptOf? hd hdc hcheck hfirst hb

theorem congr (hscripts : s'.scripts = s.scripts)
    (htop : (s'.block (s.script k).block).owner = some (.script k))
    (honce : (s'.block (s.script k).block).commands.Nodup)
    (hparent : ∀ c ∈ (s'.block (s.script k).block).commands,
      (s'.command c).parent = some (s.script k).block)
    (hheld : (s.script k).capabilities ≠ [] → ∀ c, s.requireOf? k = some c →
      (s'.block (s.script k).block).commands.head? = some c ∧
        (s'.command c).head.isBareRequire = true) : s'.Anchored k := by
  have hscript : s'.script k = s.script k := script_congr hscripts k
  refine ⟨hscripts ▸ h.known, by rwa [hscript], by rwa [hscript], by rwa [hscript],
    hscript ▸ h.distinct, fun hcapabilities => ?_⟩
  rw [hscript] at hcapabilities
  obtain ⟨c, hc⟩ := Option.isSome_iff_exists.1 (h.held hcapabilities)
  obtain ⟨hhead, hbare⟩ := hheld hcapabilities c hc
  exact Option.isSome_iff_exists.2 ⟨c, requireOf?_eq_some.2 ⟨by rwa [hscript], hbare⟩⟩

theorem list {i : Nat} (hb : b < s.blocks.size) (hc : c < s.commands.size)
    (hi : i ≤ (s.block b).commands.length) (hnew : c ∉ (s.block (s.script k).block).commands)
    (hplace : (s.script k).capabilities ≠ [] → (s.script k).block = b → i ≠ 0) :
    (s.list b i c).Anchored k := by
  have hblock := block_list (s := s) (c := c) (i := i) hb
  have hne : ∀ d ∈ (s.block (s.script k).block).commands, d ≠ c := fun d hd hdc => hnew (hdc ▸ hd)
  refine h.congr rfl ?_ ?_ (fun d hd => ?_) fun hcapabilities d hd => ⟨?_, ?_⟩
  · rw [hblock]
    split <;> exact h.top
  · rw [hblock]
    split
    · next htop =>
        rw [← htop] at hi
        exact (List.perm_insertIdx c _ hi).nodup_iff.2 (List.nodup_cons.2 ⟨hnew, h.once⟩)
    · exact h.once
  · rw [command_list hc]
    rw [hblock] at hd
    split at hd
    · next htop =>
        rw [← htop] at hi
        rcases (mem_insertIdx hi).1 hd with rfl | hd
        · rw [if_pos rfl, htop]
        · rw [if_neg (hne d hd)]
          exact h.parent d hd
    · rw [if_neg (hne d hd)]
      exact h.parent d hd
  · exact head?_list hb (hplace hcapabilities) (requireOf?_eq_some.1 hd).1
  · rw [head_list]
    exact (requireOf?_eq_some.1 hd).2

theorem unlist {source : BlockId} (hsource : source < s.blocks.size)
    (hkeep : (s.script k).capabilities ≠ [] → s.requireOf? k ≠ some c) :
    (s.unlist source c).Anchored k := by
  have hblock := block_unlist (c := c) hsource
  refine h.congr rfl ?_ ?_ (fun d hd => h.parent d ?_) fun hcapabilities d hd => ⟨?_, ?_⟩
  · rw [hblock]
    split <;> exact h.top
  · rw [hblock]
    split
    · exact h.once.erase c
    · exact h.once
  · rw [hblock] at hd
    split at hd
    · exact List.mem_of_mem_erase hd
    · exact hd
  · have hdc : d ≠ c := by
      rintro rfl
      exact hkeep hcapabilities hd
    rw [hblock]
    split
    · exact head?_erase hdc (requireOf?_eq_some.1 hd).1
    · exact (requireOf?_eq_some.1 hd).1
  · exact (requireOf?_eq_some.1 hd).2

theorem not_mem_unlist {source : BlockId} (hsource : source < s.blocks.size)
    (hparent : (s.command c).parent = some source) :
    c ∉ ((s.unlist source c).block (s.script k).block).commands := by
  rw [block_unlist hsource]
  split
  · exact h.once.not_mem_erase
  · next hne =>
      intro hc
      rw [h.parent c hc] at hparent
      exact hne (Option.some.inj hparent)

theorem modifyHead (f : Head Mark Value → Head Mark Value) (hc : c < s.commands.size)
    (hkeep : s.requireOf? k = some c → (f (s.command c).head).isBareRequire = true) :
    (s.modifyCommand c fun cell => { cell with head := f cell.head }).Anchored k := by
  have hsame := sameLinks_modifyHead (s := s) c f
  refine h.congr rfl h.top h.once (fun d hd => ?_) fun _ d hd => ⟨(requireOf?_eq_some.1 hd).1, ?_⟩
  · rw [hsame.parent]
    exact h.parent d hd
  · rw [command_modifyCommand s c d _ hc]
    split
    · next hdc =>
        rw [hdc] at hd ⊢
        exact hkeep hd
    · exact (requireOf?_eq_some.1 hd).2

theorem modifyParent (place : Option BlockId) (hc : c ∉ (s.block (s.script k).block).commands) :
    (s.modifyCommand c ({ · with parent := place })).Anchored k := by
  have hne : ∀ d ∈ (s.block (s.script k).block).commands, d ≠ c := fun d hd hdc => hc (hdc ▸ hd)
  refine h.congr rfl h.top h.once (fun d hd => ?_) fun _ d hd => ⟨(requireOf?_eq_some.1 hd).1, ?_⟩
  · rw [command_modifyCommand_of_ne _ (hne d hd)]
    exact h.parent d hd
  · rw [command_modifyCommand_of_ne _ (hne d (List.mem_of_mem_head? (requireOf?_eq_some.1 hd).1))]
    exact (requireOf?_eq_some.1 hd).2

theorem modifyOwner {own : BlockId} (o : Owner) (hne : own ≠ (s.script k).block) :
    (s.modifyBlock own ({ · with owner := some o })).Anchored k := by
  have hlist := commands_modifyOwner (s := s) own o
  refine h.congr rfl ?_ ?_ (fun d hd => ?_) fun _ d hd => ⟨?_, (requireOf?_eq_some.1 hd).2⟩
  · rw [block_modifyBlock_of_ne _ (Ne.symm hne)]
    exact h.top
  · rw [hlist]
    exact h.once
  · rw [hlist] at hd
    exact h.parent d hd
  · rw [hlist]
    exact (requireOf?_eq_some.1 hd).1

/-! ## Operations -/

theorem insert {index limit : Value} (hb : b < s.blocks.size) (hc : c < s.commands.size)
    (hfree : (s.command c).block ≠ some (s.script k).block)
    (hok : s.insert b index c limit = .ok s') : s'.Anchored k ∧ s'.scripts = s.scripts := by
  obtain ⟨i, hchecked, rfl⟩ := insert_ok hok
  have hnew : c ∉ (s.block (s.script k).block).commands := by
    intro hmem
    have hparent := h.parent c hmem
    rw [hchecked.unlisted] at hparent
    cases hparent
  have hne : s.requireOf? k ≠ some c := fun hreq =>
    hnew (List.mem_of_mem_head? (requireOf?_eq_some.1 hreq).1)
  have hlist := h.list hb hc hchecked.inside hnew
    (h.place_ne_zero hne hchecked.front hchecked.first)
  cases hblock : (s.command c).block with
  | none => exact ⟨hlist, rfl⟩
  | some own =>
      rw [hblock] at hfree
      exact ⟨hlist.modifyOwner _ fun htop => hfree (congrArg some htop), rfl⟩

theorem move {index limit : Value} (hb : b < s.blocks.size)
    (hok : s.move c b index limit = .ok s') : s'.Anchored k ∧ s'.scripts = s.scripts := by
  obtain ⟨source, i, hchecked, rfl⟩ := move_ok hok
  have hsource := lt_of_mem hchecked.listed
  have hne : s.requireOf? k ≠ some c := by
    refine h.requireOf?_ne ?_
    rw [hchecked.parent]
    exact hchecked.keeps
  have hleft := h.unlist hsource fun _ => hne
  refine ⟨hleft.list (by rwa [size_blocks_unlist]) (lt_of_parent hchecked.parent)
    hchecked.le_length (h.not_mem_unlist hsource hchecked.parent) ?_, rfl⟩
  exact h.place_ne_zero hne hchecked.front hchecked.first

theorem replace {arguments : List (Argument Mark Value)} {limit : Value}
    (hc : c < s.commands.size) (hok : s.replace c arguments limit = .ok s') :
    s'.Anchored k ∧ s'.scripts = s.scripts := by
  obtain ⟨hchecked, rfl⟩ := replace_ok hok
  exact ⟨h.modifyHead (fun head => { head with arguments }) hc fun hreq =>
    absurd hreq (h.requireOf?_ne hchecked.keeps), rfl⟩

theorem nameRule {name : Option Value} (hc : c < s.commands.size)
    (hok : s.nameRule c name = .ok s') : s'.Anchored k ∧ s'.scripts = s.scripts := by
  obtain ⟨comments, -, rfl⟩ := nameRule_ok hok
  exact ⟨h.modifyHead (fun head => { head with comments }) hc fun hreq =>
    (requireOf?_eq_some.1 hreq).2, rfl⟩

theorem capabilities_forget (hparent : (s.command c).parent = some b) :
    ((s.forget b c).script k).capabilities =
      if s.requireOf? k = some c then [] else (s.script k).capabilities := by
  split
  · next hreq =>
      have htop := h.parent_of_requireOf? hreq
      rw [hparent] at htop
      cases htop
      simp only [forget, h.scriptOf?, hreq, beq_self_eq_true, if_true]
      rw [script_modifyScript h.known, if_pos rfl]
  · next hreq =>
      unfold forget
      split
      · next j _ =>
          split
          · next hj =>
              have hkj : k ≠ j := by
                rintro rfl
                exact hreq (by simpa using hj)
              rw [script_modifyScript h.known, if_neg hkj]
          · rfl
      · rfl

theorem forget (hparent : (s.command c).parent = some b) : (s.forget b c).Anchored k := by
  have hsame := sameLinks_forget (s := s) b c
  have hcapabilities := h.capabilities_forget hparent
  refine ⟨hsame.size ▸ h.known, ?_, ?_, fun d hd => ?_, ?_, fun hsome => ?_⟩
  · rw [hsame.top, hsame.owner]
    exact h.top
  · rw [hsame.top, hsame.listed]
    exact h.once
  · rw [hsame.top, hsame.listed] at hd
    rw [hsame.top, hsame.parent]
    exact h.parent d hd
  · rw [hcapabilities]
    split
    · exact ⟨[], rfl, List.nodup_nil⟩
    · exact h.distinct
  · rw [hcapabilities] at hsome
    rw [requireOf?_forget]
    split at hsome
    · exact absurd rfl hsome
    · exact h.held hsome

theorem remove (hok : s.remove c = .ok s') : s'.Anchored k ∧
    (s'.script k).capabilities =
      if s.requireOf? k = some c then [] else (s.script k).capabilities := by
  obtain ⟨b, hparent, hmem, rfl⟩ := remove_ok hok
  have hsame := sameLinks_forget (s := s) b c
  have hforgot := h.forget hparent
  have hb : b < (s.forget b c).blocks.size := lt_of_mem (by rw [hsame.listed]; exact hmem)
  have hcapabilities := h.capabilities_forget hparent
  refine ⟨(hforgot.unlist hb fun hsome hreq => ?_).modifyParent none
    (hforgot.not_mem_unlist hb ((hsame.parent c).trans hparent)), hcapabilities⟩
  rw [requireOf?_forget] at hreq
  rw [hcapabilities, if_pos hreq] at hsome
  exact hsome rfl

/-! ## Declarations -/

theorem addRequire {j : ScriptId} (hnone : s.requireOf? j = none) : (s.addRequire j).Anchored k := by
  have hlt : ∀ d ∈ (s.block (s.script k).block).commands, d ≠ s.commands.size := by
    rintro d hd rfl
    exact Nat.lt_irrefl _ (lt_of_parent (h.parent _ hd))
  by_cases htop : (s.script k).block = (s.script j).block
  · have hblock : (s.addRequire j).block (s.script k).block =
        { s.block (s.script k).block with
          commands := s.commands.size :: (s.block (s.script k).block).commands } := by
      refine (block_modifyBlock s _ _ _ (htop ▸ lt_of_owner h.top)).trans (if_pos htop)
    refine h.congr rfl ?_ ?_ (fun d hd => ?_) fun _ d hd => ?_
    · rw [hblock]
      exact h.top
    · rw [hblock]
      exact List.nodup_cons.2 ⟨fun hmem => hlt _ hmem rfl, h.once⟩
    · rw [hblock, List.mem_cons] at hd
      rw [command_addRequire]
      rcases hd with rfl | hd
      · rw [if_pos rfl, htop]
      · rw [if_neg (hlt d hd)]
        exact h.parent d hd
    · -- A script with the same top block would have no `require` either.
      rw [Store.requireOf?, htop] at hd
      rw [Store.requireOf?, hd] at hnone
      cases hnone
  · have hblock : (s.addRequire j).block (s.script k).block = s.block (s.script k).block :=
      block_modifyBlock_of_ne _ htop
    refine h.congr rfl ?_ ?_ (fun d hd => ?_) fun _ d hd => ⟨?_, ?_⟩
    · rw [hblock]
      exact h.top
    · rw [hblock]
      exact h.once
    · rw [hblock] at hd
      rw [command_addRequire, if_neg (hlt d hd)]
      exact h.parent d hd
    · rw [hblock]
      exact (requireOf?_eq_some.1 hd).1
    · have hmem := List.mem_of_mem_head? (requireOf?_eq_some.1 hd).1
      rw [command_addRequire, if_neg (hlt d hmem)]
      exact (requireOf?_eq_some.1 hd).2

theorem requireOf?_addRequire : (s.addRequire k).requireOf? k = some s.commands.size := by
  refine requireOf?_eq_some.2 ⟨?_, ?_⟩
  · have hblock := block_modifyBlock s _ (s.script k).block
      (fun cell => { cell with commands := s.commands.size :: cell.commands }) (lt_of_owner h.top)
    rw [if_pos rfl] at hblock
    exact congrArg (fun cell => cell.commands.head?) hblock
  · rw [command_addRequire, if_pos rfl]
    exact isBareRequire_requireHead s

theorem modifyCapabilities {j : ScriptId} {name : String}
    (hheld : j = k → (s.requireOf? k).isSome = true)
    (hnew : j = k → holdsName name (s.script k).capabilities = .ok false) :
    (s.modifyScript j fun cell =>
      { cell with capabilities := cell.capabilities ++ [.text name] }).Anchored k := by
  have hsame := sameLinks_modifyCapabilities (s := s) j (· ++ [.text name])
  have hcapabilities := script_modifyScript h.known
    (fun cell => { cell with capabilities := cell.capabilities ++ [.text name] }) j
  set s' := s.modifyScript j fun cell =>
    { cell with capabilities := cell.capabilities ++ [.text name] }
  have hreq : s'.requireOf? k = s.requireOf? k := hsame.requireOf? fun _ => rfl
  have htop := hsame.top k
  refine ⟨hsame.size ▸ h.known, htop ▸ h.top, htop ▸ h.once, fun d hd => ?_, ?_, fun hsome => ?_⟩
  · rw [htop] at hd ⊢
    exact h.parent d hd
  · rw [hcapabilities]
    split
    · next hkj =>
        obtain ⟨names, hnames, hdistinct⟩ := h.distinct
        have hname := not_mem_of_holdsName (hnew hkj.symm)
        rw [hnames, map_plain_text] at hname
        refine ⟨names ++ [name], ?_, ?_⟩
        · rw [hnames, List.map_append]
          rfl
        · rw [List.map_append, List.nodup_append_comm]
          exact List.nodup_cons.2 ⟨hname, hdistinct⟩
    · exact h.distinct
  · rw [hreq]
    rw [hcapabilities] at hsome
    split at hsome
    · next hkj => exact hheld hkj.symm
    · exact h.held hsome

theorem declare {j : ScriptId} {name : String} {added : Bool}
    (hok : s.declare j name = .ok (added, s')) : s'.Anchored k ∧
      ((s'.script k).capabilities = (s.script k).capabilities ∨ j = k ∧
        (s'.script k).capabilities = (s.script k).capabilities ++ [.text (Text.trimmed name)]) := by
  rcases declare_ok hok with rfl | ⟨hholds, rfl⟩
  · exact ⟨h, .inl rfl⟩
  have hopen : ∃ opened, (if (s.requireOf? j).isNone then s.addRequire j else s) = opened ∧
      opened.Anchored k ∧ (j = k → (opened.requireOf? k).isSome = true) ∧
      opened.scripts = s.scripts := by
    split
    · next hnone =>
        refine ⟨_, rfl, h.addRequire (by simpa using hnone), ?_, rfl⟩
        rintro rfl
        rw [h.requireOf?_addRequire]
        rfl
    · next hsome =>
        refine ⟨s, rfl, h, ?_, rfl⟩
        rintro rfl
        simpa [Option.isSome_iff_ne_none] using hsome
  obtain ⟨opened, heq, hopened, hheld, hscripts⟩ := hopen
  rw [heq]
  have hscript : opened.script k = s.script k := script_congr hscripts k
  refine ⟨hopened.modifyCapabilities hheld fun hjk => ?_, ?_⟩
  · rwa [hscript, ← hjk]
  · rw [script_modifyScript hopened.known, hscript]
    split
    · next hkj => exact .inr ⟨hkj.symm, rfl⟩
    · exact .inl rfl

theorem declared {j : ScriptId} (hall : Declared j s s') : s'.Anchored k ∧ ∃ names : List String,
    (s'.script k).capabilities = (s.script k).capabilities ++ names.map Value.text ∧
      (j ≠ k → names = []) := by
  refine hall.keeps (P := fun s' => s'.Anchored k ∧ ∃ names : List String,
    (s'.script k).capabilities = (s.script k).capabilities ++ names.map Value.text ∧
      (j ≠ k → names = [])) (fun {s₁ s₂ name _} hok hs => ?_)
    ⟨h, [], (List.append_nil _).symm, fun _ => rfl⟩
  obtain ⟨h₁, names, hnames, hother⟩ := hs
  obtain ⟨h₂, hsame | ⟨hjk, hmore⟩⟩ := h₁.declare hok
  · exact ⟨h₂, names, hsame.trans hnames, hother⟩
  · refine ⟨h₂, names ++ [Text.trimmed name], ?_, fun hne => absurd hjk hne⟩
    rw [hmore, hnames, List.append_assoc, List.map_append]
    rfl

end Steps

end Anchored

/-! ## Edits -/

/-- An edit that puts a command into a block whose own block is the top block of a script. -/
def Edit.Takes (s : Store) (k : ScriptId) : Edit → Prop
  | insert _ _ c _ | append _ c _ => (s.command c).block = some (s.script k).block
  | _ => False

/-- What an edit that succeeds makes of the capabilities of a script: declarations add to the end, the
`require` that they belong to takes them with it when it is removed, and nothing else changes them. -/
def Edit.Leaves (s : Store) (k : ScriptId) : Edit → List Value → Prop
  | declare j name, capabilities => capabilities = (s.script k).capabilities ∨
      j = k ∧ capabilities = (s.script k).capabilities ++ [.text (Text.trimmed name)]
  | requireAll _ j, capabilities => ∃ names : List String,
      capabilities = (s.script k).capabilities ++ names.map Value.text ∧ (j ≠ k → names = [])
  | remove c, capabilities => capabilities =
      if s.requireOf? k = some c then [] else (s.script k).capabilities
  | _, capabilities => capabilities = (s.script k).capabilities

theorem Anchored.result (h : s.Anchored k) {e : Edit} (hknown : e.known s) (hfree : ¬ e.Takes s k)
    (hok : e.result s = .ok s') : s'.Anchored k ∧ e.Leaves s k (s'.script k).capabilities := by
  have hscript : s'.Anchored k ∧ s'.scripts = s.scripts →
      s'.Anchored k ∧ (s'.script k).capabilities = (s.script k).capabilities :=
    fun ⟨h', hscripts⟩ => ⟨h', congrArg ScriptCell.capabilities (script_congr hscripts k)⟩
  cases e with
  | insert b index c limit => exact hscript (h.insert hknown.1 hknown.2 hfree (leaving_eq_ok.1 hok))
  | append b c limit => exact hscript (h.insert hknown.1 hknown.2 hfree (leaving_eq_ok.1 hok))
  | remove c => exact h.remove (leaving_eq_ok.1 hok)
  | replace c arguments limit => exact hscript (h.replace hknown (leaving_eq_ok.1 hok))
  | move c b index limit => exact hscript (h.move hknown.1 hok)
  | declare j name =>
      obtain ⟨added, hdeclare⟩ := ok_of_declare_result hok
      exact h.declare hdeclare
  | requireAll r j => exact h.declared (declared_of_result hok)
  | nameRule c name => exact hscript (h.nameRule hknown (leaving_eq_ok.1 hok))

theorem Anchored.leads (h : s.Anchored k) {e : Edit} (hleads : e.Leads s s') (hfree : ¬ e.Takes s k) :
    s'.Anchored k ∧ ((s'.script k).capabilities = (s.script k).capabilities ∨
      e.Leaves s k (s'.script k).capabilities) := by
  cases hleads with
  | same => exact ⟨h, .inl rfl⟩
  | ok hknown hok => exact (h.result hknown hfree hok).imp_right .inr
  | stranded hparent hmem hkeeps =>
      refine ⟨h.unlist (lt_of_mem hmem) fun _ => h.requireOf?_ne ?_, .inl rfl⟩
      rw [hparent]
      exact hkeeps
  | declared _ hall => exact (h.declared hall).imp_right .inr

end MailFilter.Store
