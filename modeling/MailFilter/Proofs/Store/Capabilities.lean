import MailFilter.Proofs.Store.RequireFirst

/-!
# Capabilities of edited scripts

The capabilities of a script are texts, and none of them is there twice.  They stay with the `require`
that they belong to: an edit that takes it away takes them away too.
-/

namespace MailFilter.Store

open Relation

variable {s s' : Store} {lost : List CommandId} {k : ScriptId} {b : BlockId} {c : CommandId}

/-- The capabilities of a script are texts, each there once, and have a `require`. -/
structure Declares (s : Store) (k : ScriptId) : Prop where
  texts : ∃ names : List String, (s.script k).capabilities = names.map Value.text ∧ names.Nodup
  held : (s.script k).capabilities = [] ∨ (s.requireOf? k).isSome = true

theorem Declares.congr (h : s.Declares k)
    (hcapabilities : (s'.script k).capabilities = (s.script k).capabilities)
    (hheld : (s'.script k).capabilities = [] ∨ (s'.requireOf? k).isSome = true) : s'.Declares k :=
  ⟨hcapabilities ▸ h.texts, hheld⟩

theorem SameLinks.declares (hsame : SameLinks s s')
    (hbare : ∀ d, (s'.command d).head.isBareRequire = (s.command d).head.isBareRequire)
    (hcapabilities : (s'.script k).capabilities = (s.script k).capabilities) (h : s.Declares k) :
    s'.Declares k := by
  refine h.congr hcapabilities ?_
  rw [hcapabilities, hsame.requireOf? hbare]
  exact h.held

theorem Rearranged.declares {place : Option BlockId} (hmove : Rearranged s s' k c place)
    (h : s.Declares k) : s'.Declares k :=
  h.congr (congrArg ScriptCell.capabilities (hmove.script k)) (hmove.keeps_held h.held)

theorem declares_insert (h : s.Owned lost) (hk : k < s.scripts.size) {index limit : Value}
    (hb : b < s.blocks.size) (hc : c < s.commands.size) (hok : s.insert b index c limit = .ok s')
    (hnames : s.Declares k) : s'.Declares k := by
  obtain ⟨i, hchecked, rfl⟩ := insert_ok hok
  have hmove := hchecked.rearranged h hk hb hc
  have hlist := hmove.declares hnames
  cases hblock : (s.command c).block with
  | none => exact hlist
  | some own =>
      have hsame := sameLinks_modifyOwner (s := s.list b i c)
        (by rw [hmove.owner, h.own c own hblock])
      exact hsame.declares (fun _ => rfl) rfl hlist

theorem declares_remove (h : s.Owned lost) (hk : k < s.scripts.size) (hok : s.remove c = .ok s')
    (hnames : s.Declares k) : s'.Declares k := by
  obtain ⟨b, hparent, hmem, rfl⟩ := remove_ok hok
  refine (rearranged_remove h hk hparent hmem).declares ⟨?_, ?_⟩
  · rw [capabilities_forget h hk hparent]
    split
    · exact ⟨[], rfl, .nil⟩
    · exact hnames.texts
  · rw [capabilities_forget h hk hparent, requireOf?_forget]
    split
    · exact .inl rfl
    · exact hnames.held

theorem declares_replace (h : s.Owned lost) (hk : k < s.scripts.size) (hc : c < s.commands.size)
    {arguments : List (Argument Mark Value)} {limit : Value}
    (hok : s.replace c arguments limit = .ok s') (hnames : s.Declares k) : s'.Declares k := by
  obtain ⟨hchecked, rfl⟩ := replace_ok hok
  refine hnames.congr rfl (hnames.held.imp_right fun hsome => ?_)
  obtain ⟨d, hd⟩ := Option.isSome_iff_exists.1 hsome
  rw [requireOf?_replace h hk hc hchecked.keeps hd]
  rfl

theorem declares_nameRule {name : Option Value} (hc : c < s.commands.size)
    (hok : s.nameRule c name = .ok s') (hnames : s.Declares k) : s'.Declares k := by
  obtain ⟨comments, -, rfl⟩ := nameRule_ok hok
  refine (sameLinks_modifyHead c fun head => { head with comments }).declares (fun d => ?_) rfl hnames
  rw [command_modifyCommand _ _ _ _ hc]
  split <;> rfl

theorem not_mem_of_holdsName_text {name : String} {names : List String}
    (hholds : holdsName name (names.map Value.text) = .ok false) : name ∉ names := by
  intro hmem
  refine not_mem_of_holdsName hholds (List.mem_map_of_mem ?_)
  rw [List.map_map]
  exact List.mem_map_of_mem (f := Value.plain ∘ Value.text) hmem

theorem declares_declare (h : s.Owned lost) {j : ScriptId} (hj : j < s.scripts.size)
    (hk : k < s.scripts.size) {name : String} {added : Bool}
    (hok : s.declare j name = .ok (added, s')) (hnames : s.Declares k) : s'.Declares k := by
  rcases declare_ok hok with rfl | ⟨hholds, rfl⟩
  · exact hnames
  have hopen : ∃ opened, (if (s.requireOf? j).isNone then s.addRequire j else s) = opened ∧
      opened.Declares k ∧ (opened.requireOf? j).isSome = true ∧ opened.scripts = s.scripts := by
    split
    · next hnone =>
        refine ⟨_, rfl, (Rearranged.ofAddRequire h hj hk (by simpa using hnone)).declares hnames, ?_,
          rfl⟩
        rw [requireOf?_addRequire h hj]
        rfl
    · next hsome => exact ⟨s, rfl, hnames, by simpa [Option.isSome_iff_ne_none] using hsome, rfl⟩
  obtain ⟨opened, heq, hnames, hsome, hscripts⟩ := hopen
  rw [heq]
  have hcapabilities := script_modifyScript (hscripts ▸ hk) (fun cell =>
    { cell with capabilities := cell.capabilities ++ [.text (Text.trimmed name)] }) j
  have hsame := sameLinks_modifyCapabilities (s := opened) j fun capabilities =>
    capabilities ++ [.text (Text.trimmed name)]
  by_cases hkj : k = j
  · subst hkj
    rw [if_pos rfl] at hcapabilities
    obtain ⟨names, htexts, hnodup⟩ := hnames.texts
    refine ⟨⟨names ++ [Text.trimmed name], ?_, ?_⟩, .inr ?_⟩
    · rw [hcapabilities, htexts, List.map_append]
      rfl
    · rw [← script_congr hscripts, htexts] at hholds
      exact List.nodup_append_comm.1 (List.nodup_cons.2 ⟨not_mem_of_holdsName_text hholds, hnodup⟩)
    · rw [hsame.requireOf? fun _ => rfl]
      exact hsome
  · rw [if_neg hkj] at hcapabilities
    exact hsame.declares (fun _ => rfl) (congrArg ScriptCell.capabilities hcapabilities) hnames

theorem declares_declared (h : s.Owned lost) {j : ScriptId} (hj : j < s.scripts.size)
    (hk : k < s.scripts.size) (hall : Declared j s s') (hnames : s.Declares k) : s'.Declares k := by
  have hkeeps := h.declared_keeps (P := fun s => k < s.scripts.size ∧ s.Declares k) hj
    (fun h hj hok ⟨hk, hnames⟩ =>
      ⟨(scripts_size_declare hok).symm ▸ hk, declares_declare h hj hk hok hnames⟩) hall
  exact (hkeeps ⟨hk, hnames⟩).2

theorem declares_unlist (h : s.Owned lost) (hk : k < s.scripts.size)
    (hmem : c ∈ (s.block b).commands) (hkeeps : s.isRequireOf b c = false) (hnames : s.Declares k) :
    (s.unlist b c).Declares k := by
  refine hnames.congr rfl (hnames.held.imp_right fun hsome => ?_)
  obtain ⟨d, hd⟩ := Option.isSome_iff_exists.1 hsome
  have hne : d ≠ c := by
    rintro rfl
    exact requireOf?_ne h hk (by rw [h.parent_of_mem hmem]; exact hkeeps) hd
  obtain ⟨hhead, hbare⟩ := requireOf?_eq_some.1 hd
  exact Option.isSome_iff_exists.2
    ⟨d, requireOf?_eq_some.2 ⟨head?_unlist (lt_of_mem hmem) hne hhead, hbare⟩⟩

theorem declares_result (h : s.Owned lost) (hk : k < s.scripts.size) {e : Edit} (hknown : e.known s)
    (hok : e.result s = .ok s') (hnames : s.Declares k) : s'.Declares k := by
  cases e with
  | insert b index c limit => exact declares_insert h hk hknown.1 hknown.2 (leaving_eq_ok.1 hok) hnames
  | append b c limit => exact declares_insert h hk hknown.1 hknown.2 (leaving_eq_ok.1 hok) hnames
  | remove c => exact declares_remove h hk (leaving_eq_ok.1 hok) hnames
  | replace c arguments limit => exact declares_replace h hk hknown (leaving_eq_ok.1 hok) hnames
  | move c b index limit =>
      obtain ⟨source, i, hchecked, rfl⟩ := move_ok hok
      exact (hchecked.rearranged h hk hknown.1).declares hnames
  | declare j name =>
      obtain ⟨added, hdeclare⟩ := ok_of_declare_result hok
      exact declares_declare h hknown hk hdeclare hnames
  | requireAll r j => exact declares_declared h hknown hk (declared_of_result hok) hnames
  | nameRule c name => exact declares_nameRule hknown (leaving_eq_ok.1 hok) hnames

theorem declares_leads (h : s.Owned lost) (hk : k < s.scripts.size) {e : Edit} (hleads : e.Leads s s')
    (hnames : s.Declares k) : s'.Declares k := by
  cases hleads with
  | same => exact hnames
  | ok hknown hok => exact declares_result h hk hknown hok hnames
  | stranded _ hmem hkeeps => exact declares_unlist h hk hmem hkeeps hnames
  | declared hj hall => exact declares_declared h hj hk hall hnames

end MailFilter.Store
